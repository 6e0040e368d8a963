import Compaction.Number.Float64

/-!
# Sums and products

The sum and the product of two floating-point numbers, each rounded once from the exact value.
-/

namespace Compaction.Float64

def nan : Float64 := ofMagnitude false quietNaN

/-- A sum of zero is negative only if both numbers are. -/
def add (x y : Float64) : Float64 :=
  if x.isNaN || y.isNaN then nan
  else if x.isInfinite then if y.isInfinite && x.negative != y.negative then nan else x
  else if y.isInfinite then y
  else
    let n := x.units + y.units
    ofMagnitude (n < 0 || (n == 0 && x.negative && y.negative)) (nearest n.natAbs one)

def mul (x y : Float64) : Float64 :=
  let minus := x.negative != y.negative
  if x.isNaN || y.isNaN then nan
  else if x.isInfinite || y.isInfinite then
    if x.magnitude == 0 || y.magnitude == 0 then nan else ofMagnitude minus infinite
  else ofMagnitude minus (nearest (unitsOf x.magnitude * unitsOf y.magnitude) (one * one))

def neg (x : Float64) : Float64 := ofMagnitude (!x.negative) x.magnitude

end Compaction.Float64
