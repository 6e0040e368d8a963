import Compaction.Text.Digit
import Compaction.Yaml.Source

/-!
# Block texts

Texts that are written on indented lines of their own, after `|` with their line breaks as they are, or after `>` with
single breaks between lines as spaces. The header may give the indentation, and whether the breaks at the end are
dropped or kept; if it does not say so, the last one is kept.
-/

namespace Compaction.Yaml

/-- What becomes of the line breaks at the end of a block text. -/
inductive Chomping where
  | strip
  | clip
  | keep
  deriving DecidableEq

structure BlockHeader where
  chomping : Chomping := .clip
  /-- How much further than its surroundings the text is indented. -/
  indentation : Option Nat := none

def chomping? (c : Char) : Option Chomping :=
  if c = '+' then some .keep else if c = '-' then some .strip else none

/-- A digit that gives an indentation, which is not zero. -/
def indentation? (s : Source) : Except Fault (Option Nat) :=
  if !s.peek.isDigit then .ok none
  else if s.peek = '0' then badToken
  else .ok (Text.hexValue? s.peek)

/-- The two parts of a header in any order, and how many characters they take. -/
def headerParts (s : Source) : Except Fault (BlockHeader × Nat) :=
  match chomping? s.peek with
  | some chomping => do
    let indentation ← indentation? (s.skip 1)
    return (⟨chomping, indentation⟩, if indentation.isSome then 2 else 1)
  | none => do
    match ← indentation? s, chomping? (s.peekAt 1) with
    | none, _ => return ({}, 0)
    | some n, some chomping => return (⟨chomping, some n⟩, 2)
    | some n, none => return (⟨.clip, some n⟩, 1)

/-- The header after its mark. -/
def blockHeader : Scan BlockHeader := fun s => do
  let (header, size) ← headerParts s
  if isWordEnd (s.peekAt size) then return (header, s.skip size) else badToken

/-- The empty lines ahead of a text, and the largest column that their spaces end at. -/
def leadingLines (column : Nat) : Source → List Char × Nat × Source
  | [] => ([], column, [])
  | m :: rest =>
    if m.char = ' ' then leadingLines (max column (Source.column rest)) rest
    else if isBreak m.char then
      let (lines, column, rest) := leadingLines column rest
      (Source.breakChar m.char :: lines, column, rest)
    else ([], column, m :: rest)

/-- The breaks of empty lines, with spaces up to a column. -/
def blockBreaks (indent : Nat) : Source → List Char × Source
  | [] => ([], [])
  | m :: rest =>
    if m.char = ' ' ∧ m.place.column < indent then blockBreaks indent rest
    else if isBreak m.char then
      let (breaks, rest) := blockBreaks indent rest
      (Source.breakChar m.char :: breaks, rest)
    else ([], m :: rest)

/-- The lines of a block text up to the break of the last one, that break, and the breaks after it. -/
structure BlockLines where
  text : List Char
  last : List Char
  breaks : List Char
  rest : Source

/-- What joins two lines, given the break after the first one and the breaks of the empty lines between the two. A
folded break is one between lines that both begin with a character other than blank space. -/
def lineJoint (isFolded : Bool) (last breaks : List Char) : List Char :=
  if isFolded && last == ['\n'] then if breaks.isEmpty then [' '] else [] else last

/-- The lines at a column, given the breaks ahead of them. -/
def blockLines (isFolded : Bool) (indent : Nat) (breaks : List Char) (s : Source) : BlockLines :=
  if s.column ≠ indent ∨ s.peek = '\x00' then ⟨[], [], breaks, s⟩
  else
    let (line, afterLine) := s.split (!isLineEnd ·)
    let (last, afterBreak) := match afterLine.takeBreak? with
      | some (c, rest) => ([c], rest)
      | none => ([], afterLine)
    let (more, rest) := blockBreaks indent afterBreak
    if rest.column ≠ indent ∨ rest.peek = '\x00' then ⟨breaks ++ line, last, more, rest⟩
    else if rest.size < s.size then
      let after := blockLines isFolded indent more rest
      let joint := lineJoint (isFolded && !isBlank s.peek && !isBlank rest.peek) last more
      { after with text := breaks ++ line ++ joint ++ after.text }
    else ⟨breaks ++ line, last, more, rest⟩
termination_by s.size

/-- A block text from its mark on, within a block at column `outer`. -/
def blockText (outer : Int) : Scan (List Char) := fun s => do
  let (header, rest) ← blockHeader (s.skip 1)
  let ((), rest) ← rest.passLine
  let least := (max 1 (outer + 1)).toNat
  let (breaks, indent, rest) := match header.indentation with
    | some n =>
      let indent := least + n - 1
      let (breaks, rest) := blockBreaks indent rest
      (breaks, indent, rest)
    | none =>
      let (breaks, column, rest) := leadingLines 0 rest
      (breaks, max least column, rest)
  let lines := blockLines (s.peek == '>') indent breaks rest
  let last := if header.chomping = .strip then [] else lines.last
  let breaks := if header.chomping = .keep then lines.breaks else []
  return (lines.text ++ last ++ breaks, lines.rest)

end Compaction.Yaml
