import Compaction.Calendar.Timestamp
import Compaction.Number.Float64
import Compaction.Text.Units

/-!
# Values

What a column of a row, a partition key or a configuration field holds.
-/

namespace Compaction

/-- The names of the types of the values that this library knows. -/
def knownTypes : List String :=
  ["NoneType", "bool", "int", "float", "str", "date", "datetime", "bytes", "list", "dict"]

/-- A value of a type that this library knows nothing of, and that compares with values of this type only: they are
ordered by rank, and those of one rank are equal, whatever their texts are. -/
structure Foreign where
  typeName : String
  rank : Int
  plain : String
  literal : String
  isUnknown : typeName ∉ knownTypes
  deriving DecidableEq

inductive Value where
  | null
  | bool (b : Bool)
  | int (n : Int)
  /-- A number that is not one (NaN) differs from every other; its mark tells the occurrences apart. -/
  | float (x : Float64) (mark : Nat)
  | text (s : String)
  | broken (s : BrokenText)
  | date (d : Date)
  | timestamp (t : Timestamp)
  | bytes (b : List UInt8)
  | foreign (x : Foreign)
  | list (items : List Value)
  | dict (entries : List (Value × Value))

/-- The values of a partition's columns, in the order of the table's partition keys. -/
abbrev Partition := List Value

namespace Value

/-- The name of the value's type, as messages give it. -/
def typeName : Value → String
  | null => "NoneType"
  | bool _ => "bool"
  | int _ => "int"
  | float _ _ => "float"
  | text _ | broken _ => "str"
  | date _ => "date"
  | timestamp _ => "datetime"
  | bytes _ => "bytes"
  | foreign x => x.typeName
  | list _ => "list"
  | dict _ => "dict"

/-- The text of code points. -/
def ofPoints (points : List Nat) : Value :=
  if h : points.any (!Nat.isValidChar ·) then broken ⟨points, h⟩ else text (String.ofList (points.map Char.ofNat))

def isNull : Value → Bool
  | null => true
  | _ => false

/-- Whether the value is null, false, zero, or holds nothing. -/
def isEmpty : Value → Bool
  | null => true
  | bool b => !b
  | int n => n == 0
  | float x _ => x.magnitude == 0
  | text s => s.toList.isEmpty
  | bytes b => b.isEmpty
  | list items => items.isEmpty
  | dict entries => entries.isEmpty
  | broken _ | date _ | timestamp _ | foreign _ => false

mutual
/-- The value with every mark taken off. -/
def unmarked : Value → Value
  | float x _ => float x 0
  | list items => list (unmarkedAll items)
  | dict entries => dict (unmarkedEntries entries)
  | v => v

def unmarkedAll : List Value → List Value
  | [] => []
  | v :: rest => v.unmarked :: unmarkedAll rest

def unmarkedEntries : List (Value × Value) → List (Value × Value)
  | [] => []
  | (k, v) :: rest => (k.unmarked, v.unmarked) :: unmarkedEntries rest
end

end Value

end Compaction
