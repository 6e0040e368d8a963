import Compaction.Fault
import Compaction.Order.Sorting
import Compaction.Value.Text

/-!
# Writing JSON

A value as JSON on one line without blanks. The text is ASCII: every other character is escaped, one above U+FFFF as a
surrogate pair. The entries of a dictionary are in the order of their keys, and a key that is a number, a truth value
or null is written as a text. A number that is infinite or not a number has no form, and neither has a whole number of
more digits than can be read.
-/

namespace Compaction.Json

def unicodeEscape (unit : Nat) : List Char := '\\' :: 'u' :: Text.hex 4 unit

def escapedChar (c : Char) : List Char :=
  let n := c.toNat
  if c = '"' ∨ c = '\\' then ['\\', c]
  else if c = '\n' then ['\\', 'n']
  else if c = '\r' then ['\\', 'r']
  else if c = '\t' then ['\\', 't']
  else if n = 8 then ['\\', 'b']
  else if n = 12 then ['\\', 'f']
  else if 32 ≤ n ∧ n ≤ 126 then [c]
  else if n < 0x10000 then unicodeEscape n
  else
    unicodeEscape (0xD800 + (n - 0x10000) / 0x400) ++ unicodeEscape (0xDC00 + (n - 0x10000) % 0x400)

def writeText (s : List Char) : List Char := '"' :: (s.flatMap escapedChar ++ ['"'])

/-- A text that holds half a surrogate pair, which is escaped by itself. -/
def writeBroken (s : BrokenText) : List Char :=
  '"' :: (s.points.flatMap (fun n => if n.isValidChar then escapedChar (Char.ofNat n) else unicodeEscape n) ++ ['"'])

def writeFloat (x : Float64) : Except Fault (List Char) :=
  if x.isNaN || x.isInfinite then .error (.bare .badValue) else .ok x.text

def writeInt (n : Int) : Except Fault (List Char) :=
  if Number.prints n then .ok (Text.signed n) else .error .unprintable

def writeBool (b : Bool) : List Char :=
  if b then ['t', 'r', 'u', 'e'] else ['f', 'a', 'l', 's', 'e']

/-- A key as a text between quotes. -/
def writeKey : Value → Except Fault (List Char)
  | .null => .ok (writeText ['n', 'u', 'l', 'l'])
  | .bool b => .ok (writeText (writeBool b))
  | .int n => do return writeText (← writeInt n)
  | .float x _ => do return writeText (← writeFloat x)
  | .text s => .ok (writeText s.toList)
  | .broken s => .ok (writeBroken s)
  | _ => .error (.bare .badType)

/-- The entries of a dictionary, with what is to be written for their values, in the order of the keys. -/
def sortedEntries {α : Type} (entries : List (Value × α)) : Except Fault (List (Value × α)) :=
  match Order.sortBy? (fun e f => e.1.relation f.1) entries with
  | some sortedOnes => .ok sortedOnes
  | none => .error (.bare .badType)

def writeItems : List (Except Fault (List Char)) → Except Fault (List (List Char))
  | [] => .ok []
  | item :: rest => do return (← item) :: (← writeItems rest)

def writeEntry (e : Value × Except Fault (List Char)) : Except Fault (List Char) := do
  return (← writeKey e.1) ++ (':' :: (← e.2))

mutual
def write : Value → Except Fault (List Char)
  | .null => .ok ['n', 'u', 'l', 'l']
  | .bool b => .ok (writeBool b)
  | .int n => writeInt n
  | .float x _ => writeFloat x
  | .text s => .ok (writeText s.toList)
  | .broken s => .ok (writeBroken s)
  | .list items => do return '[' :: (Text.joinWith [','] (← writeItems (writeAll items)) ++ [']'])
  | .dict entries => do
    let inOrder ← sortedEntries (writeValues entries)
    return '{' :: (Text.joinWith [','] (← writeItems (inOrder.map writeEntry)) ++ ['}'])
  | .date _ | .timestamp _ | .bytes _ | .foreign _ => .error (.bare .badType)

/-- What is written for each value, or why nothing can be. -/
def writeAll : List Value → List (Except Fault (List Char))
  | [] => []
  | v :: rest => write v :: writeAll rest

def writeValues : List (Value × Value) → List (Value × Except Fault (List Char))
  | [] => []
  | (k, v) :: rest => (k, write v) :: writeValues rest
end

end Compaction.Json
