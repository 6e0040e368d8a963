import Compaction.Number.Reader
import Compaction.Text.Pieces
import Compaction.Yaml.Clock

/-!
# Kinds of nodes

What a node stands for, which its tag says. A text without tag and quotes has a kind by its form: null, a truth value,
a whole number in base 2, 8, 10, 16 or in groups of base 60, a number with a point, a date or a timestamp, one of two
marks, or else a text.
-/

namespace Compaction.Yaml

inductive Kind where
  | null
  | bool
  | int
  | float
  | bytes
  | timestamp
  /-- Entries in order, of which a key may come several times. -/
  | pairs
  | set
  | text
  | sequence
  | mapping
  /-- The key whose value's entries are taken over. -/
  | merge
  /-- The key whose value stands for the whole mapping where a text is expected. -/
  | standIn
  | unknown
  deriving DecidableEq

namespace Kind

def tagBase : List Char := "tag:yaml.org,2002:".toList

def names : List (String × Kind) := [
  ("null", null), ("bool", bool), ("int", int), ("float", float), ("binary", bytes), ("timestamp", timestamp),
  ("omap", pairs), ("pairs", pairs), ("set", set), ("str", text), ("seq", sequence), ("map", mapping),
  ("merge", merge), ("value", standIn)]

def ofTag (tag : List Char) : Kind :=
  if tagBase.isPrefixOf tag then (names.lookup (String.ofList (tag.drop tagBase.length))).getD unknown else unknown

def nullWords : List String := ["", "~", "null", "Null", "NULL"]

def truthWords : List String := [
  "yes", "Yes", "YES", "no", "No", "NO", "true", "True", "TRUE", "false", "False", "FALSE", "on", "On", "ON", "off",
  "Off", "OFF"]

def infinityWords : List String := [".inf", ".Inf", ".INF"]

def nanWords : List String := [".nan", ".NaN", ".NAN"]

def isDigitOrBar (c : Char) : Bool := c.isDigit || c == '_'

/-- A digit, and digits and `_` after it. -/
def isDigits : List Char → Bool
  | [] => false
  | c :: rest => c.isDigit && rest.all isDigitOrBar

/-- A number below 60 of one or two digits. -/
def isSixtieth : List Char → Bool
  | [c] => c.isDigit
  | [c, d] => '0' ≤ c && c ≤ '5' && d.isDigit
  | _ => false

/-- Two or more numbers with colons in between, of which all but the first are below 60. -/
def isInSixties (s : List Char) : Bool :=
  match Text.pieces (· == ':') s with
  | first :: second :: rest => isDigits first && (second :: rest).all isSixtieth
  | _ => false

def isExponent : List Char → Bool
  | [] => true
  | e :: sign :: c :: rest => (e == 'e' || e == 'E') && (sign == '+' || sign == '-') && (c :: rest).all Char.isDigit
  | _ => false

/-- Digits and an exponent with a sign. -/
def isFraction (s : List Char) : Bool := isExponent (s.dropWhile isDigitOrBar)

/-- A number with a point. Without digits ahead of the point it has no sign, and a digit comes next. -/
def isFloat (s : List Char) : Bool :=
  let unsigned := (Number.takeSign s).2
  match Text.cutAt '.' unsigned with
  | (whole, some fraction) =>
    (isDigits whole && isFraction fraction) || (isInSixties whole && fraction.all isDigitOrBar) ||
      (s.head? == some '.' && (fraction.head?.map Char.isDigit).getD false && isFraction fraction) ||
      infinityWords.contains (String.ofList unsigned) || nanWords.contains (String.ofList s)
  | (_, none) => false

def isBinaryDigit (c : Char) : Bool := c == '0' || c == '1' || c == '_'

def isOctalDigit (c : Char) : Bool := ('0' ≤ c && c ≤ '7') || c == '_'

def isHexDigit (c : Char) : Bool := (Text.hexValue? c).isSome || c == '_'

def isInt (s : List Char) : Bool :=
  match (Number.takeSign s).2 with
  | ['0'] => true
  | '0' :: 'b' :: rest => !rest.isEmpty && rest.all isBinaryDigit
  | '0' :: 'x' :: rest => !rest.isEmpty && rest.all isHexDigit
  | '0' :: rest => rest.all isOctalDigit
  | unsigned => isDigits unsigned || isInSixties unsigned

/-- The text without a line feed at its end, if more than that is there. -/
def withoutLineFeed (s : List Char) : List Char :=
  if s.getLast? = some '\n' ∧ s.length ≠ 1 then s.dropLast else s

/-- The kind of a text without quotes; a line feed at its end does not count. -/
def ofPlain (text : List Char) : Kind :=
  let s := withoutLineFeed text
  let word := String.ofList s
  if nullWords.contains word then null
  else if truthWords.contains word then bool
  else if isFloat s then float
  else if isInt s then int
  else if (ClockText.ofStrict? s).isSome then timestamp
  else if word == "<<" then merge
  else if word == "=" then standIn
  else Kind.text

end Kind

end Compaction.Yaml
