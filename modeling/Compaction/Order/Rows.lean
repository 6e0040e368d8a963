import Compaction.Order.Curve
import Compaction.Order.Ranks

/-!
# Sorting rows

Rows in the order of a strategy: by their columns, or by the place of their columns' ranks along a space-filling curve.
Ranks make every column count the same, whatever the range of its values. Rows that are equal in all the columns keep
their order.
-/

namespace Compaction.Order

def zPosition (point : List Int) (bits : Int) : Nat := zPlace (point.map (lowBits bits.toNat)) bits.toNat

/-- On a line the place of a point is its coordinate, whatever the bits. -/
def hilbertPosition (point : List Int) (bits : Int) : Except Fault Int :=
  match point with
  | [c] => .ok c
  | _ =>
    if bits ≤ 0 then .error (.bare .badValue)
    else if point.isEmpty ∧ 1 < bits then .error (.bare .badIndex)
    else .ok (hilbertPlace (point.map (lowBits bits.toNat)) bits.toNat)

/-- The place of a point on the curve of a strategy. -/
def curvePosition (s : Strategy) (point : List Int) (bits : Int) : Except Fault Int :=
  match s with
  | .zorder => .ok (zPosition point bits)
  | .hilbert => hilbertPosition point bits
  | .none | .order => .error (.notACurve s)

/-- How two rows stand to each other: by the first column in which they differ. -/
def relationRows (columns : List String) (r s : Row) : Relation :=
  columns.foldr (fun c later => ((r.get c).relationNullsFirst (s.get c)).orElse later) .same

/-- The points of the rows, given the ranks of each column. -/
def points (columnRanks : List (List Nat)) (rows : Nat) : List (List Int) :=
  (List.range rows).map fun i => columnRanks.map fun (rs : List Nat) => (rs.getD i 0 : Int)

def largest (columnRanks : List (List Nat)) : Nat := columnRanks.flatten.foldl max 0

def sortByCurve (s : Strategy) (columns : List String) (rows : List Row) : Except Fault (List Row) := do
  let columnRanks ← columns.mapM fun c => ranks (rows.map (·.get c))
  let bits := bitsFor (largest columnRanks)
  let places ← (points columnRanks rows.length).mapM fun p => curvePosition s p bits
  return (sorted (fun x y => x.1 < y.1) (places.zip rows)).map Prod.snd

/-- The rows in the order of a strategy. -/
def sortRows (rows : List Row) (s : Strategy) (columns : List String) : Except Fault (List Row) :=
  match s with
  | .none => .ok rows
  | .order =>
    if columns.isEmpty then .error (.sortNeedsColumns s)
    else match sortBy? (relationRows columns) rows with
      | some sortedRows => .ok sortedRows
      | none => .error (.bare .badType)
  | .zorder | .hilbert =>
    if columns.isEmpty then .error (.sortNeedsColumns s) else sortByCurve s columns rows

end Compaction.Order
