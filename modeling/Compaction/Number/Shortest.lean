import Compaction.Number.Float64
import Compaction.Text.Digit

/-!
# Shortest decimals

The decimal with the fewest digits that reads back as a given number, and the form it is written in. A number is a
decimal of finitely many digits itself, so a search that runs out of short ones ends with the exact value.
-/

namespace Compaction

/-- The value `coefficient * 10 ^ exponent`. -/
structure Decimal where
  coefficient : Nat
  exponent : Int
  deriving DecidableEq

namespace Decimal

def nearest (d : Decimal) : Nat := Float64.nearestDecimal d.coefficient d.exponent

/-- The decimals of exponent `exponent` on both sides of a number of units, the nearer one first and an even
coefficient first on a tie. -/
def neighbours (units : Nat) (exponent : Int) : List Decimal :=
  let num := if 0 ≤ exponent then units else units * Nat.pow 10 (-exponent).toNat
  let den := if 0 ≤ exponent then Float64.one * Nat.pow 10 exponent.toNat else Float64.one
  let low := num / den
  let high := low + 1
  let order := if Float64.roundDiv num den = low then [low, high] else [high, low]
  order.map fun c => ⟨c, exponent⟩

/-- The exponent of the leading digit of a positive number of units. -/
def leadingExponent (units : Nat) : Int :=
  ((Text.digits (units * Nat.pow 10 324 / Float64.one)).length : Int) - 1 - 324

/-- A number of units as a decimal, exactly: a unit is 5^1074 times 10^-1074. -/
def exact (units : Nat) : Decimal := ⟨units * Nat.pow 5 1074, -1074⟩

/-- The shortest decimal that reads back as a positive finite magnitude, the nearest of the shortest ones. -/
def shortest (magnitude : Nat) : Decimal :=
  let units := Float64.unitsOf magnitude
  let leading := leadingExponent units
  let candidates := (List.range 17).flatMap fun (k : Nat) => neighbours units (leading - (k : Int))
  (candidates.find? fun d => d.nearest == magnitude).getD (exact units)

/-- The digits of the coefficient without the zeros at its end, and the place of the point: the value is
`0.digits * 10 ^ point`. -/
def digitsAndPoint (d : Decimal) : List Char × Int :=
  let all := Text.digits d.coefficient
  ((all.reverse.dropWhile (· == '0')).reverse, all.length + d.exponent)

/-- Positional from 10^-4 up to 10^16, with a point and at least one digit after it; otherwise one digit before the
point and an exponent of at least two digits with its sign. -/
def text (d : Decimal) : List Char :=
  let (ds, point) := d.digitsAndPoint
  if -4 < point ∧ point ≤ 16 then
    if point ≤ 0 then '0' :: '.' :: (List.replicate (-point).toNat '0' ++ ds)
    else
      let whole := point.toNat
      let after := ds.drop whole
      ds.take whole ++ List.replicate (whole - ds.length) '0' ++
        ('.' :: if after.isEmpty then ['0'] else after)
  else
    let exponent := point - 1
    let sign := if exponent < 0 then '-' else '+'
    let mantissa := match ds with
      | d :: e :: rest => d :: '.' :: e :: rest
      | short => short
    mantissa ++ ('e' :: sign :: Text.padded 2 exponent.natAbs)

end Decimal

namespace Float64

def text (x : Float64) : List Char :=
  if x.isNaN then ['n', 'a', 'n']
  else
    let body :=
      if x.isInfinite then ['i', 'n', 'f']
      else if x.magnitude = 0 then ['0', '.', '0']
      else (Decimal.shortest x.magnitude).text
    if x.negative then '-' :: body else body

/-- With one digit after the point, rounded from the exact value, a tie to the even digit. -/
def fixedText (x : Float64) : List Char :=
  if x.isNaN then ['n', 'a', 'n']
  else
    let body :=
      if x.isInfinite then ['i', 'n', 'f']
      else
        let tenths := roundDiv (unitsOf x.magnitude * 10) one
        Text.digits (tenths / 10) ++ ('.' :: Text.digits (tenths % 10))
    if x.negative then '-' :: body else body

end Float64

end Compaction
