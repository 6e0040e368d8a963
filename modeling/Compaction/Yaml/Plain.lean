import Compaction.Yaml.Quoted

/-!
# Plain texts

Texts without quotes, which may go over several lines. A colon ahead of a gap ends one, and so do brackets and commas
within brackets; a comment begins with `#` after blank space.
-/

namespace Compaction.Yaml

def isFlowMark (c : Char) : Bool := c == ',' || c == '[' || c == ']' || c == '\x7b' || c == '\x7d'

/-- Whether a word ends ahead of `c`, after which `next` comes. -/
def endsWord (inFlow : Bool) (c next : Char) : Bool :=
  isGap c || (c == ':' && (isGap next || (inFlow && isFlowMark next))) || (inFlow && (c == '?' || isFlowMark c))

/-- The characters up to the end of a word, and the rest. -/
def plainWord (inFlow : Bool) : Source → List Char × Source
  | [] => ([], [])
  | m :: rest =>
    if endsWord inFlow m.char (Source.peek rest) then ([], m :: rest)
    else
      let (word, rest) := plainWord inFlow rest
      (m.char :: word, rest)

/-- The line breaks from the start of a line on, with the spaces around them; none if a separator of documents stands
among them. -/
def plainLines : Bool → Source → Option (List Char) × Source
  | atStart, s =>
    if atStart && s.isSeparator then (none, s)
    else match s with
      | [] => (some [], [])
      | m :: rest =>
        if m.char = ' ' then plainLines false rest
        else if isBreak m.char then
          let (more, rest) := plainLines true rest
          (more.map (Source.breakChar m.char :: ·), rest)
        else (some [], m :: rest)

/-- What stands between two words of a plain text. -/
structure PlainGap where
  text : List Char
  /-- Whether there is a line break in it. -/
  hasBreak : Bool
  rest : Source

def plainGap (s : Source) : PlainGap :=
  let (blank, rest) := s.split (· == ' ')
  match rest.takeBreak? with
  | none => ⟨blank, false, rest⟩
  | some (first, rest) => match plainLines true rest with
    | (none, rest) => ⟨[], true, rest⟩
    | (some more, rest) => ⟨foldedBreaks first more, true, rest⟩

/-- A plain text, with whether a line break comes after it, and what follows. The lines after the first one stand at
column `indent` at least if the text is not within brackets. -/
def plainText (inFlow : Bool) (indent : Int) (s : Source) : List Char × Bool × Source :=
  if s.peek = '#' then ([], false, s)
  else
    let (word, afterWord) := plainWord inFlow s
    let gap := plainGap afterWord
    if word.isEmpty then ([], false, s)
    else if gap.text.isEmpty || (!inFlow && (gap.rest.column : Int) < indent) then (word, gap.hasBreak, gap.rest)
    else if gap.rest.size < s.size then
      match plainText inFlow indent gap.rest with
      | ([], _, rest) => (word, gap.hasBreak, rest)
      | (more, hasBreak, rest) => (word ++ gap.text ++ more, hasBreak, rest)
    else (word, gap.hasBreak, gap.rest)
termination_by s.size

end Compaction.Yaml
