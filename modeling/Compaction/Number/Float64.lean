/-!
# Floating-point numbers

A number of 64 bits: a sign, eleven exponent bits and fifty-two fraction bits. Every finite one is a whole multiple of
the smallest positive one, 2^-1074; `units` is that multiple. Comparing, printing and reading all go through it, so
they are exact.
-/

namespace Compaction

structure Float64 where
  bits : UInt64
  deriving DecidableEq

namespace Float64

/-- The sign bit, 2^63. -/
def signBit : Nat := 0x8000000000000000

/-- The lowest exponent bit, 2^52. -/
def exponentBit : Nat := 0x10000000000000

def negative (x : Float64) : Bool := signBit ≤ x.bits.toNat

/-- All bits but the sign. -/
def magnitude (x : Float64) : Nat := x.bits.toNat % signBit

/-- The magnitude of infinity; what lies above it is not a number. -/
def infinite : Nat := 0x7FF * exponentBit

/-- The magnitude of what is not a number where nothing else is known of it. -/
def quietNaN : Nat := 0xFFF * (exponentBit / 2)

def isNaN (x : Float64) : Bool := infinite < x.magnitude

def isInfinite (x : Float64) : Bool := x.magnitude == infinite

/-- The absolute value of a finite number of this magnitude, as a multiple of 2^-1074. -/
def unitsOf (magnitude : Nat) : Nat :=
  let exponent := magnitude / exponentBit
  let fraction := magnitude % exponentBit
  if exponent = 0 then fraction else (exponentBit + fraction) * Nat.pow 2 (exponent - 1)

/-- How many units make one. -/
def one : Nat := Nat.pow 2 1074

/-- A finite number in units of 2^-1074, with its sign. -/
def units (x : Float64) : Int :=
  if x.negative then -(unitsOf x.magnitude : Int) else unitsOf x.magnitude

def ofMagnitude (negative : Bool) (magnitude : Nat) : Float64 :=
  ⟨UInt64.ofNat (magnitude + if negative then signBit else 0)⟩

/-- Half to even. -/
def roundDiv (num den : Nat) : Nat :=
  let q := num / den
  let r := num % den
  if 2 * r < den then q
  else if den < 2 * r then q + 1
  else q + q % 2

/-- The magnitude of the number nearest to `num / den`, a tie going to the even one; infinite from half a step above
the largest. Counting the units in steps of 2^shift leaves at most 53 bits, and the count carries over into the
exponent field by itself. -/
def nearest (num den : Nat) : Nat :=
  let floor := num * one / den
  let shift := (floor.log2 + 1) - 53
  min infinite (shift * exponentBit + roundDiv (num * one) (den * Nat.pow 2 shift))

/-- The number nearest to `coefficient * 10 ^ exponent`. -/
def nearestDecimal (coefficient : Nat) (exponent : Int) : Nat :=
  if coefficient = 0 then 0
  else
    let size := ((Nat.toDigits 10 coefficient).length : Int) + exponent
    if 310 < size then infinite
    else if size < -330 then 0
    else if 0 ≤ exponent then nearest (coefficient * Nat.pow 10 exponent.toNat) 1
    else nearest coefficient (Nat.pow 10 (-exponent).toNat)

/-- Toward zero. -/
def truncate (x : Float64) : Int :=
  let n := unitsOf x.magnitude / one
  if x.negative then -(n : Int) else n

end Float64

end Compaction
