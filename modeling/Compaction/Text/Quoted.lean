import Compaction.Text.Printable
import Compaction.Text.Units

/-!
# Quoted text

A text between quotes, on one line: the mark is `'`, or `"` for a text that holds a `'` and no `"`. The mark, the
backslash and whatever is not printable are escaped.
-/

namespace Compaction.Text

def hexDigit (n : Nat) : Char := Nat.digitChar (n % 16)

/-- The lowest `width` hexadecimal digits of a number. -/
def hex : Nat → Nat → List Char
  | 0, _ => []
  | width + 1, n => hex width (n / 16) ++ [hexDigit n]

/-- The mark that needs fewer escapes. -/
def quoteMark (s : List Char) : Char :=
  if s.contains '\'' && !s.contains '"' then '"' else '\''

def escaped (mark c : Char) : List Char :=
  if c = mark ∨ c = '\\' then ['\\', c]
  else if c = '\t' then ['\\', 't']
  else if c = '\n' then ['\\', 'n']
  else if c = '\r' then ['\\', 'r']
  else if isPrintable c then [c]
  else if c.toNat < 0x100 then '\\' :: 'x' :: hex 2 c.toNat
  else if c.toNat < 0x10000 then '\\' :: 'u' :: hex 4 c.toNat
  else '\\' :: 'U' :: hex 8 c.toNat

def quoted (s : List Char) : List Char :=
  let mark := quoteMark s
  mark :: (s.flatMap (escaped mark) ++ [mark])

/-- Half a surrogate pair is escaped as well. -/
def quotedPoints (points : List Nat) : List Char :=
  let mark := quoteMark (shownPoints points)
  let shown (n : Nat) := if n.isValidChar then escaped mark (Char.ofNat n) else '\\' :: 'u' :: hex 4 n
  mark :: (points.flatMap shown ++ [mark])

def escapedByte (mark : Char) (b : UInt8) : List Char :=
  let c := Char.ofNat b.toNat
  if c = mark ∨ c = '\\' then ['\\', c]
  else if c = '\t' then ['\\', 't']
  else if c = '\n' then ['\\', 'n']
  else if c = '\r' then ['\\', 'r']
  else if b.toNat < 0x20 ∨ 0x7F ≤ b.toNat then '\\' :: 'x' :: hex 2 b.toNat
  else [c]

/-- Bytes are quoted as the characters of the same numbers, after the letter `b`. -/
def quotedBytes (bs : List UInt8) : List Char :=
  let mark := quoteMark (bs.map fun b => Char.ofNat b.toNat)
  'b' :: mark :: (bs.flatMap (escapedByte mark) ++ [mark])

end Compaction.Text
