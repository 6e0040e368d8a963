import Compaction.Fault

/-!
# The text of a document

The characters of a document with their places. A line ends with a line feed, a next-line character or one of the
separators U+2028 and U+2029. The character NUL, which no document holds, stands at the end of the text.
-/

namespace Compaction.Yaml

/-- The characters that a document may hold. -/
def isPermitted (c : Char) : Bool :=
  let n := c.toNat
  n == 9 || n == 10 || n == 13 || (0x20 ≤ n && n ≤ 0x7E) || n == 0x85 || (0xA0 ≤ n && n ≤ 0xD7FF) ||
    (0xE000 ≤ n && n ≤ 0xFFFD) || 0x10000 ≤ n

def byteOrderMark : Char := '\uFEFF'

def isBreak (c : Char) : Bool := c == '\n' || c == '\u0085' || c == '\u2028' || c == '\u2029'

/-- The end of a line or of the text. -/
def isLineEnd (c : Char) : Bool := c == '\x00' || isBreak c

/-- A space, or the end of a line. -/
def isWordEnd (c : Char) : Bool := c == ' ' || isLineEnd c

def isBlank (c : Char) : Bool := c == ' ' || c == '\t'

/-- Blank space, or the end of a line. -/
def isGap (c : Char) : Bool := isBlank c || isLineEnd c

/-- Basic Latin letters and digits, `-` and `_`. -/
def isNameChar (c : Char) : Bool := c.isAlphanum || c == '-' || c == '_'

/-- Where a character stands: how many characters, lines, and characters of its line are ahead of it. -/
structure Place where
  index : Nat
  line : Nat
  column : Nat

/-- The place after a character. A byte order mark takes no column. -/
def Place.after (p : Place) (c : Char) : Place :=
  if isBreak c then ⟨p.index + 1, p.line + 1, 0⟩
  else ⟨p.index + 1, p.line, if c = byteOrderMark then p.column else p.column + 1⟩

/-- A character with its place, and how many characters come after it. -/
structure Mark where
  char : Char
  place : Place
  left : Nat

/-- What is left to read of a text, up to the NUL at its end. -/
abbrev Source := List Mark

/-- What reads a part of the text gives the part and the text after it. -/
abbrev Scan (α : Type) := Source → Except Fault (α × Source)

namespace Source

/-- How many characters are left. -/
def size : Source → Nat
  | [] => 0
  | m :: _ => m.left + 1

/-- The characters from a place on. -/
def marks (p : Place) : List Char → Source
  | [] => [⟨'\x00', p, 0⟩]
  | c :: rest =>
    let after := marks (p.after c) rest
    ⟨c, p, size after⟩ :: after

/-- A carriage return, alone or ahead of a line feed, counts as a line feed. -/
def withLineFeeds : List Char → List Char
  | '\r' :: '\n' :: rest => '\n' :: withLineFeeds rest
  | '\r' :: rest => '\n' :: withLineFeeds rest
  | c :: rest => c :: withLineFeeds rest
  | [] => []

/-- The text of a document, in which every character has to be permitted. -/
def ofText (s : List Char) : Except Fault Source :=
  if s.all isPermitted then .ok (marks ⟨0, 0, 0⟩ (withLineFeeds s)) else .error (.bare .badCharacter)

def peek : Source → Char
  | [] => '\x00'
  | m :: _ => m.char

/-- The text after its first `n` characters. -/
def skip (n : Nat) (s : Source) : Source := s.drop n

def peekAt (n : Nat) (s : Source) : Char := peek (s.skip n)

def place : Source → Place
  | [] => ⟨0, 0, 0⟩
  | m :: _ => m.place

def column (s : Source) : Nat := s.place.column

/-- The characters at the start that satisfy `p`, and the rest. -/
def split (p : Char → Bool) (s : Source) : List Char × Source :=
  ((s.takeWhile (p ·.char)).map Mark.char, s.dropWhile (p ·.char))

def skipSpaces (s : Source) : Source := s.dropWhile (·.char == ' ')

def skipLine (s : Source) : Source := s.dropWhile (!isLineEnd ·.char)

/-- Whether three marks of a kind begin the text, with a gap after them. -/
def isTriple (c : Char) (s : Source) : Bool :=
  s.peek == c && s.peekAt 1 == c && s.peekAt 2 == c && isGap (s.peekAt 3)

/-- Whether the marks that separate documents begin the text. -/
def isSeparator (s : Source) : Bool := s.isTriple '-' || s.isTriple '.'

/-- A line break counts as a line feed, but for the two separators. -/
def breakChar (c : Char) : Char := if c = '\u0085' then '\n' else c

def takeBreak? : Source → Option (Char × Source)
  | [] => none
  | m :: rest => if isBreak m.char then some (breakChar m.char, rest) else none

/-- The rest of a line that holds nothing but a comment at most. -/
def passLine : Scan Unit := fun s =>
  let s := s.skipSpaces
  let s := if s.peek = '#' then s.skipLine else s
  if isLineEnd s.peek then .ok ((), (s.takeBreak?.map Prod.snd).getD s) else .error (.bare .badToken)

/-- The pieces that `step` takes from the front of the text, joined, and what follows them. -/
def pieces {α : Type} (step : Source → Except Fault (Option (List α × Source))) (s : Source) :
    Except Fault (List α × Source) :=
  match step s with
  | .error f => .error f
  | .ok none => .ok ([], s)
  | .ok (some (piece, rest)) =>
    if size rest < s.size then do
      let (more, rest) ← pieces step rest
      return (piece ++ more, rest)
    else .ok (piece, rest)
termination_by s.size

end Source

/-- Characters that are no token. -/
def badToken {α : Type} : Except Fault α := .error (.bare .badToken)

end Compaction.Yaml
