import Compaction.Fault
import Compaction.Order.Sorting

/-!
# Dense ranks

The rank of a value is the number of different values before it, null before all others. A column of values that do
not compare, or of values that are no keys, has no ranks. The coordinates of a curve have room for at least one bit
(`bitsFor_pos`).
-/

namespace Compaction.Order

/-- As `Key.relation`, with null before everything else. -/
def keysNullFirst : Key → Key → Relation
  | .null, .null => .same
  | .null, _ => .before
  | _, .null => .after
  | k, l => k.relation l

/-- The different keys in order. -/
def distinctSorted? (keys : List Key) : Option (List Key) := sortBy? keysNullFirst (distinctBy id keys)

def ranksOfKeys (keys : List Key) : Option (List Nat) :=
  (distinctSorted? keys).map fun order => keys.map fun k => order.idxOf k

def ranks (values : List Value) : Except Fault (List Nat) :=
  match (values.mapM Value.key?).bind ranksOfKeys with
  | some rs => .ok rs
  | none => .error (.bare .badType)

/-- The number of bits that hold the absolute value, at least one. -/
def bitsFor (n : Int) : Nat := if n = 0 then 1 else n.natAbs.log2 + 1

theorem bitsFor_pos (n : Int) : 0 < bitsFor n := by
  unfold bitsFor; split <;> omega

end Compaction.Order
