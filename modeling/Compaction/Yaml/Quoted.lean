import Compaction.Text.Digit
import Compaction.Text.Units
import Compaction.Yaml.Source

/-!
# Quoted texts

Texts between single or double quotes, which may go over several lines: blank space around a line break is dropped, a
single break stands for a space, and of several breaks the first is dropped. Between single quotes a quote is written
twice; between double quotes a backslash begins an escape.
-/

namespace Compaction.Yaml

/-- The line breaks from the start of a line on, with the blank space around them. No separator of documents may stand
among them. -/
def emptyLines : Bool → Scan (List Char)
  | atStart, s =>
    if atStart && s.isSeparator then badToken
    else match s with
      | [] => .ok ([], [])
      | m :: rest =>
        if isBlank m.char then emptyLines false rest
        else if isBreak m.char then do
          let (more, rest) ← emptyLines true rest
          return (Source.breakChar m.char :: more, rest)
        else .ok ([], m :: rest)

/-- What line breaks amount to: a single line feed is a space, and ahead of others it is nothing. -/
def foldedBreaks (first : Char) (more : List Char) : List Char :=
  if first ≠ '\n' then first :: more
  else if more.isEmpty then [' ']
  else more

/-- Blank space within quotes. -/
def quotedGap : Scan (List Char) := fun s =>
  let (blank, rest) := s.split isBlank
  match rest.takeBreak? with
  | some (first, rest) => do
    let (more, rest) ← emptyLines true rest
    return (foldedBreaks first more, rest)
  | none => if rest.peek = '\x00' then badToken else .ok (blank, rest)

/-- The characters that an escape of one letter stands for. -/
def escapes : List (Char × Char) := [
  ('0', '\x00'), ('a', '\x07'), ('b', '\x08'), ('t', '\t'), ('\t', '\t'), ('n', '\n'), ('v', '\x0b'), ('f', '\x0c'),
  ('r', '\r'), ('e', '\x1b'), (' ', ' '), ('"', '"'), ('\\', '\\'), ('/', '/'), ('N', '\u0085'), ('_', '\u00a0'),
  ('L', '\u2028'), ('P', '\u2029')]

/-- The letters of the escapes by number, with the count of their digits. -/
def numericEscapes : List (Char × Nat) := [('x', 2), ('u', 4), ('U', 8)]

/-- A number in so many hexadecimal digits. -/
def hexNumber (width : Nat) : Scan Nat := fun s =>
  match (s.take width).mapM fun m => Text.hexValue? m.char with
  | some ds => if ds.length = width then .ok (Text.ofDigitsIn 16 ds, s.skip width) else badToken
  | none => badToken

/-- The code unit of a numeric escape, which has to be one of a character. -/
def codeUnit (n : Nat) : Except Fault Nat :=
  if n ≤ 0x10FFFF then .ok n
  else if n ≤ 0x7FFFFFFF then .error .notACharacter
  else .error (.bare .overflow)

/-- What follows a backslash, as code units. -/
def escape : Scan (List Nat) := fun s =>
  match escapes.lookup s.peek, numericEscapes.lookup s.peek with
  | some c, _ => .ok ([c.toNat], s.skip 1)
  | none, some width => do
    let (n, rest) ← hexNumber width (s.skip 1)
    return ([← codeUnit n], rest)
  | none, none => match s.takeBreak? with
    | some (_, rest) => do
      let (more, rest) ← emptyLines true rest
      return (more.map Char.toNat, rest)
    | none => badToken

/-- The code units between double quotes, up to the closing one. -/
def doubleQuoted : Scan (List Nat) := Source.pieces fun s =>
  if s.peek = '"' then .ok none
  else if s.peek = '\\' then (escape (s.skip 1)).map some
  else if isGap s.peek then (quotedGap s).map fun e => some (e.1.map Char.toNat, e.2)
  else .ok (some ([s.peek.toNat], s.skip 1))

/-- The characters between single quotes, up to the closing one. -/
def singleQuoted : Scan (List Char) := Source.pieces fun s =>
  if s.peek = '\'' then
    if s.peekAt 1 = '\'' then .ok (some (['\''], s.skip 2)) else .ok none
  else if isGap s.peek then (quotedGap s).map some
  else .ok (some ([s.peek], s.skip 1))

/-- A quoted text from its opening quote to its closing one. -/
def quotedText : Scan (List Char) := fun s =>
  if s.peek = '"' then do
    let (units, rest) ← doubleQuoted (s.skip 1)
    return (Text.shownPoints (Text.pointsOfUnits units), rest.skip 1)
  else do
    let (text, rest) ← singleQuoted (s.skip 1)
    return (text, rest.skip 1)

end Compaction.Yaml
