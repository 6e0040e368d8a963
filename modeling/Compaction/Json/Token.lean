import Compaction.Fault
import Compaction.Number.Reader
import Compaction.Text.Units

/-!
# JSON tokens

The marks, texts and plain values that a JSON text consists of. The text is read character by character; a stretch that
is no token stands as the fault that reading it ends with.
-/

namespace Compaction.Json

inductive Token where
  /-- A bracket, a brace, a colon or a comma. -/
  | mark (c : Char)
  /-- A text by its code points. -/
  | text (points : List Nat)
  /-- A number, a truth value or null. -/
  | plain (v : Value)
  | fault (f : Fault)

namespace Token

/-- The digits of a fraction, if one follows, passed over. -/
def pastFraction : List Char → List Char
  | '.' :: c :: rest => if c.isDigit then rest.dropWhile Char.isDigit else '.' :: c :: rest
  | rest => rest

def pastDigits (start rest : List Char) : List Char :=
  match rest with
  | c :: rest => if c.isDigit then rest.dropWhile Char.isDigit else start
  | [] => start

/-- An exponent, if one follows, passed over. -/
def pastExponent : List Char → List Char
  | e :: sign :: rest =>
    if e == 'e' || e == 'E' then
      if sign == '+' || sign == '-' then pastDigits (e :: sign :: rest) rest
      else pastDigits (e :: sign :: rest) (sign :: rest)
    else e :: sign :: rest
  | rest => rest

def isWholeStart : List Char → Bool
  | [] => false
  | ['0'] => true
  | c :: _ => c != '0'

/-- A number that begins a word; what follows the number spoils the word, but a whole number with too many digits is
refused before that is seen. -/
def number (word : List Char) : Token :=
  let (minus, unsigned) := match word with
    | '-' :: rest => (true, rest)
    | rest => (false, rest)
  let ds := unsigned.takeWhile Char.isDigit
  let rest := unsigned.dropWhile Char.isDigit
  let left := pastExponent (pastFraction rest)
  if !isWholeStart ds then fault (.bare .badDocument)
  else if left.length = rest.length && Number.maxDigits < ds.length then fault (.bare .badValue)
  else if !left.isEmpty then fault (.bare .badDocument)
  else if rest.isEmpty then
    let n := Text.ofDigits (ds.map fun c => c.toNat - '0'.toNat)
    plain (.int (if minus then -(n : Int) else n))
  else match Number.readFloat? word with
    | some x => plain (.float x 0)
    | none => fault (.bare .badDocument)

/-- A word that stands by itself. -/
def ofWord (word : List Char) : Token :=
  match String.ofList word with
  | "null" => plain .null
  | "true" => plain (.bool true)
  | "false" => plain (.bool false)
  | "NaN" => plain (.float (Float64.ofMagnitude false Float64.quietNaN) 0)
  | "Infinity" => plain (.float (Float64.ofMagnitude false Float64.infinite) 0)
  | "-Infinity" => plain (.float (Float64.ofMagnitude true Float64.infinite) 0)
  | _ => number word

end Token

/-- The place in a text: between tokens, in a word, or in a quoted text with the code units read so far. Everything
that is collected is in reverse. -/
inductive Place where
  | between
  | word (done : List Char)
  | quoted (units : List Nat)
  | escape (units : List Nat)
  | hex (left value : Nat) (units : List Nat)
  /-- After a fault, of which nothing more is read. -/
  | lost

structure Scan where
  place : Place
  /-- In reverse. -/
  tokens : List Token

namespace Scan

def isBlank (c : Char) : Bool := c == ' ' || c == '\t' || c == '\n' || c == '\r'

def isMark (c : Char) : Bool :=
  c == '[' || c == ']' || c == '\x7b' || c == '\x7d' || c == ',' || c == ':'

/-- The character that an escape of one letter stands for. -/
def escapeValue? (c : Char) : Option Nat :=
  match c with
  | '"' | '\\' | '/' => some c.toNat
  | 'b' => some 8
  | 'f' => some 12
  | 'n' => some 10
  | 'r' => some 13
  | 't' => some 9
  | _ => none

def lose (tokens : List Token) : Scan := ⟨.lost, .fault (.bare .badDocument) :: tokens⟩

/-- The first character of a token, or blank space. -/
def start (tokens : List Token) (c : Char) : Scan :=
  if isBlank c then ⟨.between, tokens⟩
  else if isMark c then ⟨.between, .mark c :: tokens⟩
  else if c = '"' then ⟨.quoted [], tokens⟩
  else ⟨.word [c], tokens⟩

def feed (s : Scan) (c : Char) : Scan :=
  match s.place with
  | .between => start s.tokens c
  | .word done =>
    if isBlank c || isMark c || c == '"' then start (Token.ofWord done.reverse :: s.tokens) c
    else ⟨.word (c :: done), s.tokens⟩
  | .quoted units =>
    if c = '"' then ⟨.between, .text (Text.pointsOfUnits units.reverse) :: s.tokens⟩
    else if c = '\\' then ⟨.escape units, s.tokens⟩
    else if c.toNat < 32 then lose s.tokens
    else ⟨.quoted (c.toNat :: units), s.tokens⟩
  | .escape units =>
    if c = 'u' then ⟨.hex 4 0 units, s.tokens⟩
    else match escapeValue? c with
      | some n => ⟨.quoted (n :: units), s.tokens⟩
      | none => lose s.tokens
  | .hex left value units =>
    match Text.hexValue? c with
    | some d =>
      if left ≤ 1 then ⟨.quoted ((16 * value + d) :: units), s.tokens⟩
      else ⟨.hex (left - 1) (16 * value + d) units, s.tokens⟩
    | none => lose s.tokens
  | .lost => s

def finish (s : Scan) : List Token :=
  match s.place with
  | .between | .lost => s.tokens.reverse
  | .word done => (Token.ofWord done.reverse :: s.tokens).reverse
  | .quoted _ | .escape _ | .hex _ _ _ => (.fault (.bare .badDocument) :: s.tokens).reverse

end Scan

/-- The tokens of a text. -/
def tokens (s : List Char) : List Token := (s.foldl Scan.feed ⟨.between, []⟩).finish

end Compaction.Json
