import Compaction.Value.Basic
import Compaction.Number.Reader
import Compaction.Number.Shortest
import Compaction.Text.Pieces
import Compaction.Text.Quoted

/-!
# Values as text

A value has two texts: the literal one quotes texts and spells out what a date is; the plain one shows texts, dates
and timestamps as they are. A whole number with more digits than can be read back has neither, and so has nothing that
holds one (`Value.prints`).
-/

namespace Compaction

/-- A call with its arguments, as dates and timestamps are spelled out. -/
def callText (name : String) (arguments : List (List Char)) : List Char :=
  name.toList ++ ('(' :: (Text.joinWith [',', ' '] arguments ++ [')']))

def named (name : String) (n : Int) : List Char := name.toList ++ ('=' :: Text.signed n)

def Date.literal (d : Date) : List Char :=
  callText "datetime.date" [Text.digits d.year, Text.digits d.month, Text.digits d.day]

/-- A duration other than zero as days, seconds and microseconds, of which only the days may be negative. -/
def durationLiteral (micros : Int) : List Char :=
  let days := micros.fdiv dayLength
  let clock := micros.fmod dayLength
  let parts := [("days", days), ("seconds", clock.fdiv 1000000), ("microseconds", clock.fmod 1000000)]
  callText "datetime.timedelta" ((parts.filter (·.2 ≠ 0)).map fun p => named p.1 p.2)

/-- An offset as a duration; zero has a name. -/
def offsetLiteral (offset : Int) : List Char :=
  if offset = 0 then "datetime.timezone.utc".toList else callText "datetime.timezone" [durationLiteral offset]

/-- Seconds and microseconds are left out from the end while they are zero. -/
def Timestamp.literal (t : Timestamp) : List Char :=
  let clock :=
    if t.micro ≠ 0 then [t.hour, t.minute, t.second, t.micro]
    else if t.second ≠ 0 then [t.hour, t.minute, t.second]
    else [t.hour, t.minute]
  let zone := match t.offset with
    | none => []
    | some offset => ["tzinfo=".toList ++ offsetLiteral offset]
  callText "datetime.datetime" (([t.date.year, t.date.month, t.date.day] ++ clock).map Text.digits ++ zone)

namespace Value

mutual
def literal : Value → List Char
  | null => ['N', 'o', 'n', 'e']
  | bool true => ['T', 'r', 'u', 'e']
  | bool false => ['F', 'a', 'l', 's', 'e']
  | int n => Text.signed n
  | float x _ => x.text
  | text s => Text.quoted s.toList
  | broken s => Text.quotedPoints s.points
  | date d => d.literal
  | timestamp t => t.literal
  | bytes b => Text.quotedBytes b
  | foreign x => x.literal.toList
  | list items => Text.listText (literals items)
  | dict entries => '{' :: (Text.joinWith [',', ' '] (entryLiterals entries) ++ ['}'])

def literals : List Value → List (List Char)
  | [] => []
  | v :: rest => v.literal :: literals rest

def entryLiterals : List (Value × Value) → List (List Char)
  | [] => []
  | (k, v) :: rest => (k.literal ++ (':' :: ' ' :: v.literal)) :: entryLiterals rest
end

mutual
/-- Whether the value has a text. -/
def prints : Value → Bool
  | int n => Number.prints n
  | list items => printsAll items
  | dict entries => printsEntries entries
  | _ => true

def printsAll : List Value → Bool
  | [] => true
  | v :: rest => v.prints && printsAll rest

def printsEntries : List (Value × Value) → Bool
  | [] => true
  | (k, v) :: rest => k.prints && v.prints && printsEntries rest
end

def plain : Value → List Char
  | text s => s.toList
  | broken s => Text.shownPoints s.points
  | date d => d.text
  | timestamp t => t.text ' '
  | foreign x => x.plain.toList
  | v => v.literal

end Value

/-- A partition as a tuple of literals. -/
def Partition.literal (p : Partition) : List Char := Text.tupleText (Value.literals p)

def Partition.prints (p : Partition) : Bool := Value.printsAll p

/-- Strings as a list of literals. -/
def namesLiteral (names : List String) : List Char := Text.listText (names.map fun n => Text.quoted n.toList)

end Compaction
