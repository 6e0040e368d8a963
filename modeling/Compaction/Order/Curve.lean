/-!
# Space-filling curves

The place of a point with whole coordinates along the Z-order and the Hilbert curve. Only the lowest `bits` bits of a
coordinate matter, except on a line, where the Hilbert place of a point is its coordinate.
-/

namespace Compaction.Order

/-- The lowest `bits` bits of a coordinate. -/
def lowBits (bits : Nat) (c : Int) : Nat := (c % (Nat.pow 2 bits : Nat)).toNat

/-- Bit `bit` of every coordinate, the first coordinate's bit the most significant. -/
def bitColumn (bit : Nat) (point : List Nat) (z : Nat) : Nat :=
  point.foldl (fun z c => 2 * z + c / Nat.pow 2 bit % 2) z

/-- The bits of the coordinates interleaved, those of the highest place first. -/
def interleave (point : List Nat) : Nat → Nat → Nat
  | 0, z => z
  | bit + 1, z => interleave point bit (bitColumn bit point z)

def zPlace (point : List Nat) (bits : Nat) : Nat := interleave point bits 0

/-- One coordinate `c` at level `q` against the first one: a set bit flips the lower bits of the first coordinate, a
clear one exchanges the lower bits of the two. -/
def turn (q first c : Nat) : Nat × Nat :=
  let low := Nat.pow 2 q - 1
  if c.testBit q then (first ^^^ low, c)
  else
    let t := (first ^^^ c) &&& low
    (first ^^^ t, c ^^^ t)

/-- `turn` for the coordinates after the first one, in order. -/
def turnRest (q first : Nat) : List Nat → Nat × List Nat
  | [] => (first, [])
  | c :: rest =>
    let (first, c) := turn q first c
    let (first, rest) := turnRest q first rest
    (first, c :: rest)

/-- `turn` for every coordinate, the first one against itself. -/
def turnAll (q : Nat) : List Nat → List Nat
  | [] => []
  | first :: rest =>
    let first := if first.testBit q then first ^^^ (Nat.pow 2 q - 1) else first
    let (first, rest) := turnRest q first rest
    first :: rest

/-- Turns the point at every level from `levels` down to 1. -/
def turnLevels : Nat → List Nat → List Nat
  | 0, point => point
  | q + 1, point => turnLevels q (turnAll (q + 1) point)

/-- Each coordinate combined with all before it. -/
def running : Nat → List Nat → List Nat
  | _, [] => []
  | acc, c :: rest => (acc ^^^ c) :: running (acc ^^^ c) rest

/-- The exclusive or of `2^q - 1` over the set bits `q` of a number, from `levels` down to 1. -/
def flips (last : Nat) : Nat → Nat
  | 0 => 0
  | q + 1 => (if last.testBit (q + 1) then Nat.pow 2 (q + 1) - 1 else 0) ^^^ flips last q

/-- The coordinates whose bits, interleaved, are the place on the Hilbert curve. -/
def hilbertTranspose (point : List Nat) (bits : Nat) : List Nat :=
  let turned := running 0 (turnLevels (bits - 1) point)
  let t := flips (turned.getLastD 0) (bits - 1)
  turned.map (· ^^^ t)

def hilbertPlace (point : List Nat) (bits : Nat) : Nat := zPlace (hilbertTranspose point bits) bits

end Compaction.Order
