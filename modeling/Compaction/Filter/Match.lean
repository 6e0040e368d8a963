import Compaction.Calendar.Reader
import Compaction.Filter.Basic
import Compaction.Number.Reader

/-!
# Matching a filter

A filter's text is read as a value of the type that it is compared with, so `01` matches the number 1. A null matches
nothing. Groups and pairs are tried in order, up to the first that decides; a text that does not fit the type is a
fault if it is reached.
-/

namespace Compaction.Filter

/-- The value that a text stands for where a value of a given type is expected. -/
def readAs {α : Type} (column text : String) (actual : Value) (read : Option α) : Except Fault α :=
  match read with
  | some x => .ok x
  | none => .error (.badFilterValue text column actual.typeName (some (.bare .badValue)))

/-- Whether two numbers are equal; a NaN is equal to none. -/
def equalFloats (x y : Float64) : Bool := !x.isNaN && !y.isNaN && Extended.ofFloat x = Extended.ofFloat y

/-- Whether a value of `column` is what `text` stands for. -/
def sameValue (column : String) (actual : Value) (text : String) : Except Fault Bool :=
  match actual with
  | .null => return false
  | .bool b =>
    let word := String.ofList (Text.lowered text.toList)
    if word = "true" then return b
    else if word = "false" then return !b
    else throw (.badFilterValue text column actual.typeName none)
  | .int n => return (← readAs column text actual (Number.readInt? text.toList)) = n
  | .float x _ => return equalFloats (← readAs column text actual (Number.readFloat? text.toList)) x
  | .timestamp t => return (← readAs column text actual (Timestamp.read? text.toList)).key = t.key
  | .date d => return (← readAs column text actual (Date.read? text.toList)) = d
  | .broken _ => return false
  | v => if v.prints then return v.plain = text.toList else throw .unprintable

/-- Whether every pair of a group matches. -/
def matchesGroup (value : String → Value) : List (String × String) → Except Fault Bool
  | [] => return true
  | (column, text) :: rest => do
    if ← sameValue column (value column) text then matchesGroup value rest else return false

/-- Whether some group matches. -/
def matchesSome (value : String → Value) : List (List (String × String)) → Except Fault Bool
  | [] => return false
  | g :: rest => do
    if ← matchesGroup value g then return true else matchesSome value rest

/-- Whether the filter selects a row with these column values. -/
def selects (f : Filter) (value : String → Value) : Except Fault Bool := matchesSome value f.groups

def selectsRow (f : Filter) (r : Row) : Except Fault Bool := f.selects r.get

end Filter

/-- A filter on the partition columns of a table. -/
structure Predicate where
  keys : List String
  filter : Filter

/-- A filter that names partition columns only, as a predicate on partitions. -/
def Filter.bind (f : Filter) (keys : List String) : Except Fault Predicate :=
  match f.columns.filter (!keys.contains ·) with
  | [] => .ok ⟨keys, f⟩
  | foreign => .error (.foreignColumns foreign keys)

/-- A partition as a row of its key columns. -/
def Predicate.row (p : Predicate) (partition : Partition) : Row := Row.ofList (p.keys.zip partition)

def Predicate.test (p : Predicate) (partition : Partition) : Except Fault Bool :=
  p.filter.selectsRow (p.row partition)

end Compaction
