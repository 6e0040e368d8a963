import Compaction.Json.Token
import Compaction.Json.Writer
import Mathlib.Algebra.Order.Group.Nat

/-!
# Quoted texts in JSON

A text is written between quotes with escapes, and scanned back code unit by code unit. What is written for a character
gives its code units, one or a surrogate pair (`foldl_feed_escapedChar`), the units of a text make up its code points
(`Text.pointsOfUnits_flatMap_units`), and so a written text is scanned as one token, whatever was scanned before it
(`foldl_feed_writeText`).
-/

namespace Compaction

namespace Text

/-- The code units of a character: its number, or a surrogate pair for one above U+FFFF. -/
def units (c : Char) : List Nat :=
  if c.toNat < 0x10000 then [c.toNat] else [0xD800 + (c.toNat - 0x10000) / 0x400, 0xDC00 + (c.toNat - 0x10000) % 0x400]

/-- No character is half of a surrogate pair. -/
private theorem toNat_scalar (c : Char) : c.toNat < 0xD800 ∨ 0xDFFF < c.toNat ∧ c.toNat < 0x110000 := c.valid

private theorem pointsOfUnits_cons {n : Nat} (h : ¬ (0xD800 ≤ n ∧ n < 0xDC00)) (rest : List Nat) :
    pointsOfUnits (n :: rest) = n :: pointsOfUnits rest := by
  cases rest with
  | nil => rfl
  | cons m rest => rw [pointsOfUnits, if_neg fun hpair => h ⟨hpair.1, hpair.2.1⟩]

private theorem pointsOfUnits_units_append (c : Char) (rest : List Nat) :
    pointsOfUnits (units c ++ rest) = c.toNat :: pointsOfUnits rest := by
  have hscalar := toNat_scalar c
  rw [units]
  split
  · exact pointsOfUnits_cons (by omega) rest
  · next h =>
    have hhigh : (c.toNat - 0x10000) / 0x400 < 0x400 := by omega
    have hlow : (c.toNat - 0x10000) % 0x400 < 0x400 := Nat.mod_lt _ (by decide)
    have hsum : 0x10000 + (0xD800 + (c.toNat - 0x10000) / 0x400 - 0xD800) * 0x400 +
        (0xDC00 + (c.toNat - 0x10000) % 0x400 - 0xDC00) = c.toNat := by omega
    rw [List.cons_append, List.singleton_append, pointsOfUnits, if_pos (by omega), hsum]

/-- The code units of a text make up its code points. -/
theorem pointsOfUnits_flatMap_units (s : List Char) : pointsOfUnits (s.flatMap units) = points s := by
  induction s with
  | nil => rfl
  | cons c rest ih =>
    rw [List.flatMap_cons, pointsOfUnits_units_append, ih]
    rfl

private theorem hexValue?_hexDigit (n : Nat) : hexValue? (hexDigit n) = some (n % 16) := by
  have hall : ∀ d < 16, hexValue? (Nat.digitChar d) = some d := by decide
  exact hall (n % 16) (Nat.mod_lt n (by decide))

end Text

namespace Json

open Text

/-- The digits of a unit, of which `left` more are to come after these. -/
private theorem foldl_feed_hex (width n value left : Nat) (units : List Nat) (before : List Token) :
    (hex width n).foldl Scan.feed ⟨.hex (width + (left + 1)) value units, before⟩ =
      ⟨.hex (left + 1) (16 ^ width * value + n % 16 ^ width) units, before⟩ := by
  induction width generalizing n left with
  | zero => simp [hex, Nat.mod_one]
  | succ width ih =>
    have hdigits : width + 1 + (left + 1) = width + (left + 1 + 1) := by omega
    have hvalue : 16 * (16 ^ width * value + n / 16 % 16 ^ width) + n % 16 =
        16 ^ (width + 1) * value + n % 16 ^ (width + 1) := by
      rw [Nat.pow_succ', Nat.mod_mul, Nat.mul_add, Nat.mul_assoc]
      omega
    rw [hex, List.foldl_append, hdigits, ih]
    simp only [List.foldl_cons, List.foldl_nil, Scan.feed, hexValue?_hexDigit, hvalue]
    rw [if_neg (by omega)]
    rfl

private theorem foldl_feed_unicodeEscape {n : Nat} (h : n < 0x10000) (units : List Nat) (before : List Token) :
    (unicodeEscape n).foldl Scan.feed ⟨.quoted units, before⟩ = ⟨.quoted (n :: units), before⟩ := by
  have hthree := foldl_feed_hex 3 (n / 16) 0 0 units before
  have hmark : Scan.feed (Scan.feed ⟨.quoted units, before⟩ '\\') 'u' = ⟨.hex (3 + (0 + 1)) 0 units, before⟩ := rfl
  have hvalue : 16 * (16 ^ 3 * 0 + n / 16 % 16 ^ 3) + n % 16 = n := by omega
  rw [unicodeEscape, hex]
  simp only [List.foldl_cons, List.foldl_append, List.foldl_nil]
  rw [hmark, hthree]
  simp only [Scan.feed, hexValue?_hexDigit, hvalue]
  rfl

/-- The forms in which a character is written: by a letter, as it is, by its code unit, or by a surrogate pair. -/
private theorem escapedChar_cases (c : Char) :
    (∃ letter, Scan.escapeValue? letter = some c.toNat ∧ c.toNat < 0x80 ∧ escapedChar c = ['\\', letter]) ∨
    (c ≠ '"' ∧ c ≠ '\\' ∧ 32 ≤ c.toNat ∧ c.toNat ≤ 126 ∧ escapedChar c = [c]) ∨
    (c.toNat < 0x10000 ∧ escapedChar c = unicodeEscape c.toNat) ∨
    (0x10000 ≤ c.toNat ∧ escapedChar c = unicodeEscape (0xD800 + (c.toNat - 0x10000) / 0x400) ++
      unicodeEscape (0xDC00 + (c.toNat - 0x10000) % 0x400)) := by
  unfold escapedChar
  extract_lets n
  split
  · next h =>
    left
    refine ⟨c, ?_, ?_, rfl⟩
    · rcases h with rfl | rfl <;> rfl
    · rcases h with rfl | rfl <;> decide
  next hquote =>
  split
  · next h => exact .inl ⟨'n', by rw [h]; rfl, by rw [h]; decide, rfl⟩
  split
  · next h => exact .inl ⟨'r', by rw [h]; rfl, by rw [h]; decide, rfl⟩
  split
  · next h => exact .inl ⟨'t', by rw [h]; rfl, by rw [h]; decide, rfl⟩
  split
  · next h => exact .inl ⟨'b', congrArg some h.symm, by omega, rfl⟩
  split
  · next h => exact .inl ⟨'f', congrArg some h.symm, by omega, rfl⟩
  split
  · next h => exact .inr (.inl ⟨fun e => hquote (.inl e), fun e => hquote (.inr e), h.1, h.2, rfl⟩)
  split
  · next h => exact .inr (.inr (.inl ⟨h, rfl⟩))
  · next h => exact .inr (.inr (.inr ⟨Nat.not_lt.1 h, rfl⟩))

private theorem foldl_feed_short {letter : Char} {n : Nat} (h : Scan.escapeValue? letter = some n) (done : List Nat)
    (before : List Token) :
    ['\\', letter].foldl Scan.feed ⟨.quoted done, before⟩ = ⟨.quoted (n :: done), before⟩ := by
  have hunicode : letter ≠ 'u' := by
    rintro rfl
    cases h
  have hescape : Scan.feed ⟨.quoted done, before⟩ '\\' = ⟨.escape done, before⟩ := rfl
  rw [List.foldl_cons, hescape, List.foldl_cons, List.foldl_nil, Scan.feed]
  simp only [if_neg hunicode, h]

/-- What is written for a character gives its code units. -/
theorem foldl_feed_escapedChar (c : Char) (done : List Nat) (before : List Token) :
    (escapedChar c).foldl Scan.feed ⟨.quoted done, before⟩ = ⟨.quoted ((units c).reverse ++ done), before⟩ := by
  have hscalar := toNat_scalar c
  have hsingle (h : c.toNat < 0x10000) : (units c).reverse ++ done = c.toNat :: done := by
    rw [units, if_pos h]
    rfl
  rcases escapedChar_cases c with ⟨letter, hletter, hlow, hc⟩ | ⟨hquote, hescape, hlow, hhigh, hc⟩ | ⟨hlow, hc⟩ |
      ⟨hhigh, hc⟩
  · rw [hc, hsingle (by omega)]
    exact foldl_feed_short hletter done before
  · rw [hc, hsingle (by omega), List.foldl_cons, List.foldl_nil, Scan.feed]
    simp only [if_neg hquote, if_neg hescape, if_neg (Nat.not_lt.2 hlow)]
  · rw [hc, hsingle hlow]
    exact foldl_feed_unicodeEscape hlow done before
  · rw [hc, List.foldl_append, foldl_feed_unicodeEscape (by omega), foldl_feed_unicodeEscape (by omega), units,
      if_neg (Nat.not_lt.2 hhigh)]
    rfl

private theorem foldl_feed_escaped (s : List Char) (done : List Nat) (before : List Token) :
    (s.flatMap escapedChar).foldl Scan.feed ⟨.quoted done, before⟩ =
      ⟨.quoted ((s.flatMap units).reverse ++ done), before⟩ := by
  induction s generalizing done with
  | nil => rfl
  | cons c rest ih =>
    rw [List.flatMap_cons, List.foldl_append, foldl_feed_escapedChar, ih, List.flatMap_cons, List.reverse_append,
      List.append_assoc]

/-- A written text is scanned as one token. -/
theorem foldl_feed_writeText (s : List Char) (before : List Token) :
    (writeText s).foldl Scan.feed ⟨.between, before⟩ = ⟨.between, .text (points s) :: before⟩ := by
  have hopen : Scan.feed ⟨.between, before⟩ '"' = ⟨.quoted [], before⟩ := rfl
  rw [writeText, List.foldl_cons, hopen, List.foldl_append, foldl_feed_escaped, List.append_nil, List.foldl_cons,
    List.foldl_nil, Scan.feed]
  simp only [if_pos, List.reverse_reverse, pointsOfUnits_flatMap_units]

end Json

end Compaction
