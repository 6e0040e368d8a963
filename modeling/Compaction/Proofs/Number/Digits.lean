import Compaction.Number.Reader
import Mathlib.Algebra.Order.Group.Nat
import Mathlib.Data.List.Basic

/-!
# Decimal digits and their values

The ten digits `0` to `9` as text. Every number is the value of its digits (`ofDigits_digits`), zeros in front count
nothing (`ofDigits_zeros_append`), and `k` zeros at the end multiply by `10 ^ k`, of a value (`ofDigits_append_zeros`)
as well as of a number that is written (`digits_mul_pow`). A number filled with zeros to a width is still written in
digits and keeps its value (`ofDigits_padded`). A run of digits is read digit by digit (`digitRunBy?_eq_values`).
-/

namespace Compaction

namespace Text

/-- The values of digits from `0` to `9`. -/
def values (ds : List Char) : List Nat := ds.map fun c => c.toNat - '0'.toNat

def AllDigits (s : List Char) : Prop := ∀ c ∈ s, c.isDigit = true

theorem ne_of_isDigit {c mark : Char} (h : c.isDigit = true) (hmark : mark.isDigit = false) : c ≠ mark := by
  rintro rfl
  simp [hmark] at h

theorem isBlank_of_isDigit {c : Char} (h : c.isDigit = true) : isBlank c = false := by
  rw [Char.isDigit_iff_toNat] at h
  have hlow : 48 ≤ c.toNat := h.1
  have hhigh : c.toNat ≤ 57 := h.2
  simp only [isBlank, Bool.or_eq_false_iff, Bool.and_eq_false_iff, decide_eq_false_iff_not, beq_eq_false_iff_ne]
  omega

theorem length_values (ds : List Char) : (values ds).length = ds.length := List.length_map _

private theorem ofDigits_values (ds : List Char) : ofDigits (values ds) = Nat.ofDigitChars 10 ds 0 := by
  rw [Nat.ofDigitChars_eq_foldl, values, ofDigits, ofDigitsIn, List.foldl_map]

theorem ofDigits_digits (n : Nat) : ofDigits (values (digits n)) = n := by
  rw [ofDigits_values, digits, Nat.ofDigitChars_ten_toDigits]

theorem ofDigits_zeros_append (k : Nat) (ds : List Char) :
    ofDigits (values (List.replicate k '0' ++ ds)) = ofDigits (values ds) := by
  rw [ofDigits_values, ofDigits_values, Nat.ofDigitChars_append, Nat.ofDigitChars_replicate_zero, Nat.mul_zero]

theorem ofDigits_append_zeros (ds : List Char) (k : Nat) :
    ofDigits (values (ds ++ List.replicate k '0')) = ofDigits (values ds) * 10 ^ k := by
  rw [ofDigits_values, ofDigits_values, Nat.ofDigitChars_append, Nat.ofDigitChars_replicate_zero, Nat.mul_comm]

theorem digits_ne_nil (n : Nat) : digits n ≠ [] := Nat.toDigits_ne_nil

theorem allDigits_digits (n : Nat) : AllDigits (digits n) :=
  fun _ hc => Nat.isDigit_of_mem_toDigits (by decide) (by decide) hc

theorem AllDigits.append {s t : List Char} (hs : AllDigits s) (ht : AllDigits t) : AllDigits (s ++ t) :=
  fun c hc => (List.mem_append.1 hc).elim (hs c) (ht c)

theorem allDigits_zeros (k : Nat) : AllDigits (List.replicate k '0') := by
  intro c hc
  rw [List.eq_of_mem_replicate hc]
  rfl

/-- The digits of a positive number do not begin with a zero. -/
theorem head?_digits_ne_zero {n : Nat} (h : 0 < n) : (digits n).head? ≠ some '0' := by
  induction n using Nat.strongRecOn with
  | ind n ih =>
    rw [digits, Nat.toDigits_eq_if (by decide)]
    split
    · have hzero : n.digitChar ≠ '0' := by
        rw [Ne, Nat.digitChar_eq_zero]
        omega
      simpa using hzero
    · have hlead := ih (n / 10) (by omega) (by omega)
      rw [List.head?_append_of_ne_nil _ Nat.toDigits_ne_nil]
      exact hlead

theorem digits_mul_pow {n : Nat} (h : 0 < n) (k : Nat) :
    digits (n * 10 ^ k) = digits n ++ List.replicate k '0' := by
  induction k with
  | zero => simp
  | succ k ih =>
    have hpos : 0 < n * 10 ^ k := Nat.mul_pos h (Nat.pow_pos (by decide))
    have hstep : n * 10 ^ (k + 1) = 10 * (n * 10 ^ k) + 0 := by
      rw [Nat.pow_succ, ← Nat.mul_assoc, Nat.add_zero, Nat.mul_comm]
    have hlast := Nat.toDigits_append_toDigits (b := 10) (by decide) hpos (d := 0) (by decide)
    rw [List.replicate_succ', ← List.append_assoc, ← ih, hstep, digits, digits, ← hlast]
    rfl

/-- How many digits a number has tells its size. -/
theorem length_digits_le_iff {n k : Nat} (h : 0 < k) : (digits n).length ≤ k ↔ n < 10 ^ k :=
  Nat.length_toDigits_le_iff (by decide) h

theorem allDigits_padded (width n : Nat) : AllDigits (padded width n) :=
  (allDigits_zeros _).append (allDigits_digits n)

theorem ofDigits_padded (width n : Nat) : ofDigits (values (padded width n)) = n := by
  rw [padded, ofDigits_zeros_append, ofDigits_digits]

theorem length_padded {width n : Nat} (hwidth : 0 < width) (hn : n < 10 ^ width) : (padded width n).length = width := by
  have hdigits : (digits n).length ≤ width := (length_digits_le_iff hwidth).2 hn
  rw [padded, List.length_append, List.length_replicate]
  omega

private theorem digitValue?_of_isDigit {c : Char} (h : c.isDigit = true) :
    digitValue? c = some (c.toNat - '0'.toNat) := by
  have hrange : '0' ≤ c ∧ c ≤ '9' := by
    rw [Char.isDigit_iff_toNat] at h
    exact ⟨h.1, h.2⟩
  rw [digitValue?, if_pos hrange]

end Text

namespace Number

open Text

/-- A run of digits without anything between them is read digit by digit. -/
theorem digitRunBy?_eq_values {value? : Char → Option Nat}
    (hvalue : ∀ c, c.isDigit = true → value? c = some (c.toNat - '0'.toNat)) {ds : List Char} (hne : ds ≠ [])
    (hds : AllDigits ds) : digitRunBy? value? ds = some (values ds) := by
  induction ds with
  | nil => exact absurd rfl hne
  | cons c rest ih =>
    have hc := hvalue c (hds c (by simp))
    have hrest : AllDigits rest := fun d hd => hds d (List.mem_cons_of_mem _ hd)
    cases rest with
    | nil => simp [digitRunBy?, hc, values]
    | cons d rest =>
      have hd : d ≠ '_' := ne_of_isDigit (hds d (by simp)) (by decide)
      have hmore := ih (by simp) hrest
      rw [digitRunBy?, hc, hmore]
      · rfl
      · simp
      · intro rest' h
        exact hd (List.cons.inj h).1

theorem digitRun?_eq_values {ds : List Char} (hne : ds ≠ []) (hds : AllDigits ds) :
    digitRun? ds = some (values ds) :=
  digitRunBy?_eq_values (fun _ h => digitValue?_of_isDigit h) hne hds

/-- A digit is the same in base 10 as in a decimal. -/
theorem digitIn?_of_isDigit {c : Char} (h : c.isDigit = true) : digitIn? 10 c = some (c.toNat - '0'.toNat) := by
  have hhigh : c.toNat ≤ 57 := (Char.isDigit_iff_toNat.1 h).2
  have hsmall : c.toNat - 48 < 10 := by omega
  simp [digitIn?, digitValue?_of_isDigit h, hsmall]

theorem optionalRun?_eq_values {ds : List Char} (hds : AllDigits ds) : optionalRun? ds = some (values ds) := by
  cases ds with
  | nil => rfl
  | cons c rest =>
    rw [optionalRun?, if_neg (by simp)]
    exact digitRun?_eq_values (by simp) hds

end Number

end Compaction
