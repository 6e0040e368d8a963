/-!
# Code units

Characters by number. A surrogate pair is one character. Half a pair is none, so a text that holds one is kept as its
code points.
-/

namespace Compaction

/-- A text that holds half a surrogate pair, as its code points. -/
@[ext]
structure BrokenText where
  points : List Nat
  isBroken : points.any (!Nat.isValidChar ·)
  deriving DecidableEq

namespace Text

/-- The code points of code units: a pair gives one. -/
def pointsOfUnits : List Nat → List Nat
  | [] => []
  | [a] => [a]
  | a :: b :: rest =>
    if 0xD800 ≤ a ∧ a < 0xDC00 ∧ 0xDC00 ≤ b ∧ b < 0xE000 then
      (0x10000 + (a - 0xD800) * 0x400 + (b - 0xDC00)) :: pointsOfUnits rest
    else a :: pointsOfUnits (b :: rest)

/-- The code points of a text. -/
def points (s : List Char) : List Nat := s.map Char.toNat

/-- Code points as a reader sees them: half a pair stands as a replacement character. -/
def shownPoints (points : List Nat) : List Char :=
  points.map fun n => if n.isValidChar then Char.ofNat n else '\uFFFD'

end Text

end Compaction
