import Compaction.Proofs.Number.Digits
import Compaction.Number.Shortest
import Mathlib.Algebra.Order.Group.Nat

/-!
# The number nearest to a fraction or to a decimal

Rounding depends on the value of a fraction only, not on how it is written (`nearest_mul`), and so does the nearest
number to a decimal: zeros at the end of a coefficient may be counted in the exponent (`nearestDecimal_mul_pow`). The
number nearest to a whole count of units that makes a floating-point number is that number (`nearest_unitsOf`), whose
exact decimal is read back for this reason, and the shortest decimal by the way it is chosen (`nearest_shortest`).
-/

namespace Compaction

namespace Float64

theorem one_pos : 0 < one := by decide +kernel

private theorem roundDiv_mul (num den : Nat) {j : Nat} (h : 0 < j) :
    roundDiv (num * j) (den * j) = roundDiv num den := by
  have hquotient : num * j / (den * j) = num / den := Nat.mul_div_mul_right num den h
  have hremainder : num * j % (den * j) = num % den * j := Nat.mul_mod_mul_right j num den
  have hbelow : 2 * (num % den * j) < den * j ↔ 2 * (num % den) < den := by
    rw [← Nat.mul_assoc]
    exact Nat.mul_lt_mul_right h
  have habove : den * j < 2 * (num % den * j) ↔ den < 2 * (num % den) := by
    rw [← Nat.mul_assoc]
    exact Nat.mul_lt_mul_right h
  simp only [roundDiv, hquotient, hremainder, hbelow, habove]

private theorem roundDiv_mul_self (n : Nat) {d : Nat} (h : 0 < d) : roundDiv (n * d) d = n := by
  simp [roundDiv, Nat.mul_div_cancel _ h, Nat.mul_mod_left, h]

theorem nearest_mul (num den : Nat) {j : Nat} (h : 0 < j) : nearest (num * j) (den * j) = nearest num den := by
  have hfloor : num * j * one / (den * j) = num * one / den := by
    rw [Nat.mul_right_comm]
    exact Nat.mul_div_mul_right _ _ h
  have hround (s : Nat) : roundDiv (num * j * one) (den * j * s) = roundDiv (num * one) (den * s) := by
    rw [Nat.mul_right_comm num, Nat.mul_right_comm den]
    exact roundDiv_mul _ _ h
  simp only [nearest, hfloor, hround]

/-- Zeros at the end of a coefficient may be counted in the exponent. -/
theorem nearestDecimal_mul_pow (c k : Nat) (e : Int) : nearestDecimal (c * 10 ^ k) e = nearestDecimal c (e + k) := by
  rcases Nat.eq_zero_or_pos c with rfl | hc
  · simp [nearestDecimal]
  have hpow (n : Nat) : 0 < 10 ^ n := Nat.pow_pos (by decide)
  have hsize : ((Nat.toDigits 10 (c * 10 ^ k)).length : Int) + e = (Nat.toDigits 10 c).length + (e + k) := by
    have hdigits : Nat.toDigits 10 (c * 10 ^ k) = Nat.toDigits 10 c ++ List.replicate k '0' :=
      Text.digits_mul_pow hc k
    rw [hdigits, List.length_append, List.length_replicate]
    omega
  have hvalue : (if 0 ≤ e then nearest (c * 10 ^ k * 10 ^ e.toNat) 1 else nearest (c * 10 ^ k) (10 ^ (-e).toNat)) =
      if 0 ≤ e + k then nearest (c * 10 ^ (e + k).toNat) 1 else nearest c (10 ^ (-(e + k)).toNat) := by
    by_cases he : 0 ≤ e
    · have hexponent : (e + k).toNat = k + e.toNat := by omega
      rw [if_pos he, if_pos (by omega), hexponent, Nat.pow_add, Nat.mul_assoc]
    rw [if_neg he]
    by_cases hek : 0 ≤ e + k
    · have hexponent : k = (e + k).toNat + (-e).toNat := by omega
      have hsplit : c * 10 ^ k = c * 10 ^ (e + k).toNat * 10 ^ (-e).toNat := by
        rw [Nat.mul_assoc, ← Nat.pow_add, ← hexponent]
      have hscaled := nearest_mul (c * 10 ^ (e + k).toNat) 1 (hpow (-e).toNat)
      rw [if_pos hek, hsplit, ← hscaled, Nat.one_mul]
    · have hexponent : (-e).toNat = (-(e + k)).toNat + k := by omega
      rw [if_neg hek, hexponent, Nat.pow_add]
      exact nearest_mul _ _ (hpow k)
  have hne : c * 10 ^ k ≠ 0 := Nat.mul_ne_zero (by omega) (hpow k).ne'
  simp only [nearestDecimal, if_neg hne, if_neg hc.ne', hsize]
  exact if_congr Iff.rfl rfl (if_congr Iff.rfl rfl hvalue)

private theorem unitsOf_of_lt {m : Nat} (h : m < exponentBit) : unitsOf m = m := by
  rw [unitsOf, Nat.div_eq_of_lt h, if_pos rfl, Nat.mod_eq_of_lt h]

/-- With an exponent field the leading bit stands above the fraction. -/
private theorem exists_unitsOf_eq {m : Nat} (h : exponentBit ≤ m) : ∃ shift significand, exponentBit ≤ significand ∧
    significand < 2 * exponentBit ∧ m = shift * exponentBit + significand ∧ unitsOf m = significand * 2 ^ shift := by
  have hexponent : 0 < m / exponentBit := Nat.div_pos h (by decide)
  have hfraction : m % exponentBit < exponentBit := Nat.mod_lt _ (by decide)
  have hsum : m / exponentBit * exponentBit + m % exponentBit = m := Nat.div_add_mod' m exponentBit
  refine ⟨m / exponentBit - 1, exponentBit + m % exponentBit, by omega, by omega, ?_, ?_⟩
  · have hone : m / exponentBit = m / exponentBit - 1 + 1 := by omega
    rw [hone, Nat.add_mul] at hsum
    omega
  · rw [unitsOf, if_neg hexponent.ne']
    rfl

private theorem log2_mul_two_pow {significand : Nat} (hlow : exponentBit ≤ significand)
    (hhigh : significand < 2 * exponentBit) (shift : Nat) : (significand * 2 ^ shift).log2 + 1 - 53 = shift := by
  have hpow : 0 < 2 ^ shift := Nat.two_pow_pos shift
  have hpos : 0 < significand := lt_of_lt_of_le (by decide) hlow
  have hlog : (significand * 2 ^ shift).log2 = 52 + shift := by
    rw [Nat.log2_eq_iff (Nat.mul_pos hpos hpow).ne', Nat.pow_succ, Nat.pow_add, Nat.mul_right_comm]
    exact ⟨Nat.mul_le_mul_right _ hlow, Nat.mul_lt_mul_of_pos_right hhigh hpow⟩
  omega

/-- A finite magnitude is the one nearest to the units that it stands for. -/
theorem nearest_unitsOf {m : Nat} (h : m < infinite) : nearest (unitsOf m) one = m := by
  have hfloor : unitsOf m * one / one = unitsOf m := Nat.mul_div_cancel _ one_pos
  have hround (s : Nat) : roundDiv (unitsOf m * one) (one * s) = roundDiv (unitsOf m) s := by
    rw [Nat.mul_comm one]
    exact roundDiv_mul _ _ one_pos
  simp only [nearest, hfloor, hround]
  rcases Nat.lt_or_ge m exponentBit with hm | hm
  · -- Below the first exponent the units are counted one by one.
    have hlog : m.log2 + 1 - 53 = 0 := by
      rcases Nat.eq_zero_or_pos m with rfl | hpos
      · decide
      · have : m.log2 < 52 := (Nat.log2_lt hpos.ne').2 hm
        omega
    have hself : roundDiv m (Nat.pow 2 0) = m := by simpa using roundDiv_mul_self m Nat.one_pos
    rw [unitsOf_of_lt hm, hlog, hself, Nat.zero_mul, Nat.zero_add]
    exact Nat.min_eq_right h.le
  · obtain ⟨shift, significand, hlow, hhigh, hsum, hunits⟩ := exists_unitsOf_eq hm
    have hself : roundDiv (significand * 2 ^ shift) (Nat.pow 2 shift) = significand :=
      roundDiv_mul_self significand (Nat.two_pow_pos shift)
    rw [hunits, log2_mul_two_pow hlow hhigh, hself, ← hsum]
    exact Nat.min_eq_right h.le

private theorem unitsOf_pos {m : Nat} (h : 0 < m) : 0 < unitsOf m := by
  rcases Nat.lt_or_ge m exponentBit with hm | hm
  · rwa [unitsOf_of_lt hm]
  · obtain ⟨shift, significand, hlow, -, -, hunits⟩ := exists_unitsOf_eq hm
    rw [hunits]
    exact Nat.mul_pos (lt_of_lt_of_le (by decide) hlow) (Nat.two_pow_pos shift)

private theorem unitsOf_lt {m k : Nat} (h : m < (k + 2) * exponentBit) : unitsOf m < 2 * exponentBit * 2 ^ k := by
  rcases Nat.lt_or_ge m exponentBit with hm | hm
  · rw [unitsOf_of_lt hm]
    exact hm.trans (Nat.lt_of_lt_of_le (by decide) (Nat.le_mul_of_pos_right _ (Nat.two_pow_pos k)))
  · obtain ⟨shift, significand, hlow, hhigh, hsum, hunits⟩ := exists_unitsOf_eq hm
    have hshift : shift ≤ k := by
      simp only [exponentBit] at h hsum hlow
      omega
    rw [hunits]
    exact Nat.mul_lt_mul_of_lt_of_le hhigh (Nat.pow_le_pow_right Nat.two_pos hshift) (Nat.two_pow_pos k)

private theorem nearest_mul_pow_five (u k : Nat) :
    nearest (u * Nat.pow 5 k) (Nat.pow 10 k) = nearest u (Nat.pow 2 k) := by
  have hten : Nat.pow 10 k = Nat.pow 2 k * Nat.pow 5 k := Nat.mul_pow 2 5 k
  have hfive : 0 < Nat.pow 5 k := Nat.pow_pos (by decide)
  rw [hten]
  exact nearest_mul _ _ hfive

/-- Within the range that is rounded at all, a decimal with a negative exponent is a fraction. -/
private theorem nearestDecimal_of_length {c : Nat} {e : Int} (hc : 0 < c) (he : e < 0)
    (hlong : -330 ≤ (Text.digits c).length + e) (hshort : (Text.digits c).length + e ≤ 310) :
    nearestDecimal c e = nearest c (Nat.pow 10 (-e).toNat) := by
  rw [Text.digits] at hlong hshort
  rw [nearestDecimal, if_neg hc.ne', if_neg (by omega), if_neg (by omega), if_neg (by omega)]

/-- The exact decimal of a finite magnitude is within that range. -/
private theorem length_exact {u : Nat} (hpos : 0 < u) (h : u < 2 * exponentBit * 2 ^ 2045) :
    743 < (Text.digits (u * Nat.pow 5 1074)).length ∧ (Text.digits (u * Nat.pow 5 1074)).length ≤ 1384 := by
  have hlow : 10 ^ 743 ≤ Nat.pow 5 1074 := by decide +kernel
  have hhigh : 2 * exponentBit * 2 ^ 2045 * Nat.pow 5 1074 ≤ 10 ^ 1384 := by decide +kernel
  generalize Nat.pow 5 1074 = five at hlow hhigh ⊢
  have hfive : 0 < five := (Nat.pow_pos (by decide)).trans_le hlow
  constructor
  · rw [← Nat.not_le, Text.length_digits_le_iff (by omega), Nat.not_lt]
    exact hlow.trans (Nat.le_mul_of_pos_left _ hpos)
  · rw [Text.length_digits_le_iff (by omega)]
    exact (Nat.mul_lt_mul_of_pos_right h hfive).trans_le hhigh

private theorem nearestDecimal_exact {m : Nat} (hpos : 0 < m) (h : m < infinite) :
    nearestDecimal (unitsOf m * Nat.pow 5 1074) (-1074) = m := by
  have hunits := unitsOf_pos hpos
  obtain ⟨hlong, hshort⟩ := length_exact hunits (unitsOf_lt (k := 2045) h)
  have hcoefficient : 0 < unitsOf m * Nat.pow 5 1074 := by
    rw [Nat.pos_iff_ne_zero]
    intro hzero
    rw [hzero] at hlong
    exact absurd hlong (by decide)
  rw [nearestDecimal_of_length hcoefficient (by decide) (by omega) (by omega)]
  exact (nearest_mul_pow_five (unitsOf m) 1074).trans (nearest_unitsOf h)

end Float64

namespace Decimal

open Float64

/-- The shortest decimal of a number reads back as the number, by the way it is looked for. -/
theorem nearest_shortest {m : Nat} (hpos : 0 < m) (h : m < infinite) : (shortest m).nearest = m := by
  unfold shortest
  extract_lets units leading candidates
  cases hfound : candidates.find? fun d => d.nearest == m with
  | some d => simpa using List.find?_some hfound
  | none => exact nearestDecimal_exact hpos h

theorem coefficient_shortest {m : Nat} (hpos : 0 < m) (h : m < infinite) : 0 < (shortest m).coefficient := by
  have hback := nearest_shortest hpos h
  rw [Nat.pos_iff_ne_zero]
  intro hzero
  rw [nearest, nearestDecimal, if_pos hzero] at hback
  omega

end Decimal

end Compaction
