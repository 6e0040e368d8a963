import Compaction.Value.Key

/-!
# Comparing values

How two values stand to each other. Values of one kind are ordered; a NaN stands in no order to another number; values
of different kinds are not compared. Lists are ordered by their first difference.
-/

namespace Compaction

inductive Relation where
  | before
  | same
  | after
  /-- Comparable, but neither before the other. -/
  | unordered
  /-- Not comparable. -/
  | refused
  deriving DecidableEq

namespace Relation

def ofOrdering : Ordering → Relation
  | .lt => before
  | .eq => same
  | .gt => after

/-- The first relation, or the second where the first finds no difference. -/
def orElse (first : Relation) (second : Relation) : Relation :=
  if first = same then second else first

end Relation

/-- The order of two lists by their first difference, a shorter one before a longer one that begins with it. -/
def compareLists {α : Type} (cmp : α → α → Ordering) : List α → List α → Ordering
  | [], [] => .eq
  | [], _ :: _ => .lt
  | _ :: _, [] => .gt
  | x :: xs, y :: ys => (cmp x y).then (compareLists cmp xs ys)

/-- Texts are ordered by their code points. -/
def compareTexts (s t : String) : Ordering := compareLists compare (Text.points s.toList) (Text.points t.toList)

def Extended.order : Extended → Extended → Ordering
  | .negative, .negative => .eq
  | .negative, _ => .lt
  | .finite _, .negative => .gt
  | .finite m, .finite n => compare m n
  | .finite _, .positive => .lt
  | .positive, .positive => .eq
  | .positive, _ => .gt

def Key.relation : Key → Key → Relation
  | .null, .null => .same
  | .number x, .number y => .ofOrdering (x.order y)
  | .number _, .unordered _ => .unordered
  | .unordered _, .number _ => .unordered
  | .unordered m, .unordered n => if m = n then .same else .unordered
  | .text s, .text t => .ofOrdering (compareLists compare s t)
  | .date m, .date n => .ofOrdering (compare m n)
  | .clock m, .clock n => .ofOrdering (compare m n)
  | .instant m, .instant n => .ofOrdering (compare m n)
  | .bytes a, .bytes b => .ofOrdering (compareLists (fun x y => compare x.toNat y.toNat) a b)
  | .foreign s m, .foreign t n => if s = t then .ofOrdering (compare m n) else .refused
  | _, _ => .refused

/-- Whether `p` holds of some entry whose key is `k`. -/
def anyEntry (p : Value → Bool) (k : Value) (entries : List (Value × Value)) : Bool :=
  entries.any fun e => e.1.key? = k.key? && p e.2

namespace Value

mutual
def relation : Value → Value → Relation
  | list xs, list ys => relationLists xs ys
  | dict xs, dict ys => if xs.length = ys.length && entriesIn xs ys then .same else .refused
  | v, w => match v.key?, w.key? with
    | some k, some l => k.relation l
    | _, _ => .refused

def relationLists : List Value → List Value → Relation
  | [], [] => .same
  | [], _ :: _ => .before
  | _ :: _, [] => .after
  | x :: xs, y :: ys => (x.relation y).orElse (relationLists xs ys)

/-- Whether each entry is one of `ys`, with the same key and the same value. -/
def entriesIn : List (Value × Value) → List (Value × Value) → Bool
  | [], _ => true
  | (k, v) :: rest, ys => anyEntry (fun w => v.relation w = .same) k ys && entriesIn rest ys
end

/-- As `relation`, with null the same as null and before everything else. -/
def relationNullsFirst : Value → Value → Relation
  | null, null => .same
  | null, _ => .before
  | _, null => .after
  | v, w => v.relation w

end Value

end Compaction
