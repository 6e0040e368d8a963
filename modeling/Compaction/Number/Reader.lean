import Compaction.Number.Float64
import Compaction.Text.Blank
import Compaction.Text.Digit

/-!
# Reading numbers

Whole and decimal numbers in text. Blank space around a number, digits of any script and a single `_` between two
digits are allowed.
-/

namespace Compaction.Number

/-- The blank space that may stand around a number: the separator controls are no part of it. -/
def isMargin (c : Char) : Bool := Text.isBlank c && !(28 ≤ c.toNat && c.toNat ≤ 31)

def withoutMargin (s : List Char) : List Char :=
  ((s.dropWhile isMargin).reverse.dropWhile isMargin).reverse

/-- A sign, if there is one, and the rest; `true` is the minus sign. -/
def takeSign : List Char → Bool × List Char
  | '-' :: rest => (true, rest)
  | '+' :: rest => (false, rest)
  | rest => (false, rest)

def signedBy (minus : Bool) (n : Nat) : Int := if minus then -(n : Int) else n

/-- The values of one or more digits with at most one `_` between two of them. -/
def digitRunBy? (value? : Char → Option Nat) : List Char → Option (List Nat)
  | [] => none
  | [c] => (value? c).map ([·])
  | c :: '_' :: rest => do return (← value? c) :: (← digitRunBy? value? rest)
  | c :: rest => do return (← value? c) :: (← digitRunBy? value? rest)

def digitRun? : List Char → Option (List Nat) := digitRunBy? Text.digitValue?

/-- The value of a digit of a base, which is a digit of any script or a letter. -/
def digitIn? (base : Nat) (c : Char) : Option Nat :=
  ((Text.digitValue? c).or (Text.hexValue? c)).filter (· < base)

/-- The largest number of digits of a whole number in base 10. -/
def maxDigits : Nat := 4300

/-- Whether a whole number has a text: one of more digits than can be read has none. -/
def prints (n : Int) : Bool := (Text.digits n.natAbs).length ≤ maxDigits

/-- Why a text is no whole number. -/
inductive WholeFault where
  | malformed
  | tooLong (digits : Nat)
  deriving DecidableEq

/-- The letter that may stand after a zero before the digits of a base. -/
def baseMark? (base : Nat) : Option Char :=
  if base = 2 then some 'b' else if base = 8 then some 'o' else if base = 16 then some 'x' else none

/-- The digits after the mark of their base, if it is there; a `_` may stand between the two. -/
def pastBaseMark (base : Nat) : List Char → List Char
  | '0' :: c :: rest =>
    if some c.toLower = baseMark? base then (if rest.head? = some '_' then rest.drop 1 else rest)
    else '0' :: c :: rest
  | s => s

/-- The whole number that a text stands for. Base 10 allows `maxDigits` digits, which are counted before what follows
the digits is looked at. -/
def readWhole (base : Nat) (s : List Char) : Except WholeFault Int :=
  let (minus, unsigned) := takeSign (s.dropWhile isMargin)
  let isDigit (c : Char) : Bool := c == '_' || (digitIn? base c).isSome
  let body := pastBaseMark base unsigned
  match digitRunBy? (digitIn? base) (body.takeWhile isDigit) with
  | none => .error .malformed
  | some ds =>
    if base = 10 ∧ maxDigits < ds.length then .error (.tooLong ds.length)
    else if (body.dropWhile isDigit).all isMargin then .ok (signedBy minus (Text.ofDigitsIn base ds))
    else .error .malformed

def readInt? (s : List Char) : Option Int := (readWhole 10 s).toOption

/-- A run of digits that may be empty. -/
def optionalRun? (s : List Char) : Option (List Nat) :=
  if s.isEmpty then some [] else digitRun? s

/-- The text before the first character that satisfies `p`, and the text after it if there is one. -/
def cutWhere (p : Char → Bool) (s : List Char) : List Char × Option (List Char) :=
  (s.takeWhile (!p ·), match s.dropWhile (!p ·) with
    | [] => none
    | _ :: rest => some rest)

def exponent? : Option (List Char) → Option Int
  | none => some 0
  | some s => do
    let (minus, rest) := takeSign s
    return signedBy minus (Text.ofDigits (← digitRun? rest))

/-- The magnitude of an unsigned decimal: digits with a point somewhere, and an exponent after `e`. -/
def magnitude? (s : List Char) : Option Nat := do
  let (mantissa, power) := cutWhere (fun c => c == 'e' || c == 'E') s
  let (whole, fraction) := cutWhere (· == '.') mantissa
  let w ← optionalRun? whole
  let f ← optionalRun? (fraction.getD [])
  let e ← exponent? power
  if w.isEmpty && f.isEmpty then none
  else return Float64.nearestDecimal (Text.ofDigits (w ++ f)) (e - f.length)

def readFloat? (s : List Char) : Option Float64 :=
  let (minus, rest) := takeSign (withoutMargin s)
  let word := String.ofList (rest.map Char.toLower)
  let magnitude :=
    if word == "inf" || word == "infinity" then some Float64.infinite
    else if word == "nan" then some Float64.quietNaN
    else magnitude? rest
  magnitude.map (Float64.ofMagnitude minus)

end Compaction.Number
