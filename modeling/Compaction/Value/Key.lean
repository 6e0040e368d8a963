import Compaction.Value.Basic

/-!
# Keys

What a value is when it serves as a key: two values are the same key exactly when `Value.key?` gives the same for
both. A truth value is the number 0 or 1, a whole number is the number of the same value whatever its type, and a NaN
is the same key as itself only. A text goes by its code points, and a value of an unknown type by its rank. Lists and
dictionaries are no keys.
-/

namespace Compaction

/-- A number in units of 2^-1074, or infinite. -/
inductive Extended where
  | negative
  | finite (units : Int)
  | positive
  deriving DecidableEq

inductive Key where
  | null
  | number (x : Extended)
  | unordered (mark : Nat)
  | text (points : List Nat)
  | date (ordinal : Nat)
  | clock (micros : Int)
  | instant (micros : Int)
  | bytes (b : List UInt8)
  | foreign (typeName : String) (rank : Int)
  deriving DecidableEq

def Extended.ofInt (n : Int) : Extended := .finite (n * Float64.one)

def Extended.ofFloat (x : Float64) : Extended :=
  if x.isInfinite then (if x.negative then .negative else .positive) else .finite x.units

def Timestamp.key (t : Timestamp) : Key :=
  if t.offset.isSome then .instant t.instant else .clock t.localMicros

def Value.key? : Value → Option Key
  | null => some .null
  | bool b => some (.number (.ofInt b.toNat))
  | int n => some (.number (.ofInt n))
  | float x mark => some (if x.isNaN then .unordered mark else .number (.ofFloat x))
  | text s => some (.text (Text.points s.toList))
  | broken s => some (.text s.points)
  | date d => some (.date d.ordinal)
  | timestamp t => some t.key
  | bytes b => some (.bytes b)
  | foreign x => some (.foreign x.typeName x.rank)
  | list _ => none
  | dict _ => none

/-- The keys of a partition's values; a value that is no key has none. -/
def Partition.keys (p : Partition) : List (Option Key) := p.map Value.key?

/-- Whether every value of a partition is a key. -/
def Partition.isKey (p : Partition) : Bool := p.all fun v => v.key?.isSome

/-- Adds an entry to an association list in insertion order, or replaces the value of an entry with the same key. The
key that came first stays. -/
def insertEntry {α β γ : Type} [DecidableEq γ] (key : α → γ) (k : α) (v : β) : List (α × β) → List (α × β)
  | [] => [(k, v)]
  | (k', v') :: rest => if key k' = key k then (k', v) :: rest else (k', v') :: insertEntry key k v rest

/-- The first of each key. -/
def distinctBy {α γ : Type} [DecidableEq γ] (key : α → γ) : List α → List α
  | [] => []
  | x :: rest => x :: (distinctBy key rest).filter fun y => key y ≠ key x

end Compaction
