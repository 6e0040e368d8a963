import Compaction.Proofs.Number.Nearest
import Mathlib.Data.List.TakeWhile

/-!
# Written numbers are read back

A numeral is digits with a point or an exponent after them. Reading one gives the number nearest to its value
(`magnitude?_spelled`). Each of the layouts in which a decimal is written is a numeral of the same value
(`Decimal.exists_numeral`), and so a finite number is read back from its own text, the sign of a zero included
(`readFloat?_text`). So is a whole number of as many digits as are allowed (`readInt?_signed`).
-/

namespace Compaction

open Text

namespace Number

private theorem cutWhere_of_forall {p : Char → Bool} {s : List Char} (h : ∀ c ∈ s, p c = false) :
    cutWhere p s = (s, none) := by
  have htake : s.takeWhile (!p ·) = s := List.takeWhile_eq_self_iff.2 fun c hc => by simp [h c hc]
  have hdrop : s.dropWhile (!p ·) = [] := List.dropWhile_eq_nil_iff.2 fun c hc => by simp [h c hc]
  rw [cutWhere, htake, hdrop]

private theorem cutWhere_append_cons {p : Char → Bool} {s rest : List Char} {mark : Char} (h : ∀ c ∈ s, p c = false)
    (hmark : p mark = true) : cutWhere p (s ++ mark :: rest) = (s, some rest) := by
  have htake : (s ++ mark :: rest).takeWhile (!p ·) = s := by
    rw [List.takeWhile_append_of_pos fun c hc => by simp [h c hc], List.takeWhile_cons_of_neg (by simp [hmark]),
      List.append_nil]
  have hdrop : (s ++ mark :: rest).dropWhile (!p ·) = mark :: rest := by
    rw [List.dropWhile_append_of_pos fun c hc => by simp [h c hc], List.dropWhile_cons_of_neg (by simp [hmark])]
  rw [cutWhere, htake, hdrop]

end Number

/-- A number as it is written: the digits before the point, the digits after it, and the sign and the digits of the
exponent. A number begins with a zero only if nothing else stands before the point. -/
structure Numeral where
  whole : List Char
  fraction : List Char
  power : Option (Bool × List Char)
  allDigits_whole : AllDigits whole
  allDigits_fraction : AllDigits fraction
  allDigits_power : ∀ p ∈ power, p.2 ≠ [] ∧ AllDigits p.2
  whole_ne_nil : whole ≠ []
  leading : whole.head? = some '0' → whole = ['0']
  /-- There is a point or an exponent. -/
  marked : fraction ≠ [] ∨ power ≠ none

namespace Numeral

def pointed (fraction : List Char) : List Char := if fraction = [] then [] else '.' :: fraction

def powered : Option (Bool × List Char) → List Char
  | none => []
  | some (minus, ds) => 'e' :: (if minus then '-' else '+') :: ds

def spelled (n : Numeral) : List Char := n.whole ++ (pointed n.fraction ++ powered n.power)

def exponent (n : Numeral) : Int :=
  match n.power with
  | none => 0
  | some (minus, ds) => Number.signedBy minus (ofDigits (values ds))

/-- The magnitude of the number nearest to the value. -/
def magnitude (n : Numeral) : Nat :=
  Float64.nearestDecimal (ofDigits (values (n.whole ++ n.fraction))) (n.exponent - n.fraction.length)

private theorem isPower_eq_false {c : Char} (h : c.isDigit = true ∨ c = '.') : (c == 'e' || c == 'E') = false := by
  rcases h with h | rfl
  · have hlower : c ≠ 'e' := ne_of_isDigit h (by decide)
    have hupper : c ≠ 'E' := ne_of_isDigit h (by decide)
    simp [hlower, hupper]
  · decide

private theorem isPower_eq_false_of_mem {n : Numeral} {c : Char} (hc : c ∈ n.whole ++ pointed n.fraction) :
    (c == 'e' || c == 'E') = false := by
  apply isPower_eq_false
  rcases List.mem_append.1 hc with hc | hc
  · exact .inl (n.allDigits_whole c hc)
  · rw [pointed] at hc
    split at hc
    · cases hc
    · rcases List.mem_cons.1 hc with rfl | hc
      · exact .inr rfl
      · exact .inl (n.allDigits_fraction c hc)

private theorem cut_power (n : Numeral) : ∃ power, Number.cutWhere (fun c => c == 'e' || c == 'E') n.spelled =
    (n.whole ++ pointed n.fraction, power) ∧ Number.exponent? power = some n.exponent := by
  have hmantissa (c : Char) (hc : c ∈ n.whole ++ pointed n.fraction) := isPower_eq_false_of_mem hc
  rw [spelled, ← List.append_assoc, exponent]
  cases hpower : n.power with
  | none =>
    rw [powered, List.append_nil]
    exact ⟨none, Number.cutWhere_of_forall hmantissa, rfl⟩
  | some p =>
    obtain ⟨minus, ds⟩ := p
    obtain ⟨hne, hds⟩ := n.allDigits_power (minus, ds) hpower
    refine ⟨_, Number.cutWhere_append_cons hmantissa (by decide), ?_⟩
    have hrun := Number.digitRun?_eq_values hne hds
    cases minus with
    | true => simp [Number.exponent?, Number.takeSign, hrun]
    | false => simp [Number.exponent?, Number.takeSign, hrun]

private theorem cut_point (n : Numeral) : ∃ fraction, Number.cutWhere (· == '.') (n.whole ++ pointed n.fraction) =
    (n.whole, fraction) ∧ fraction.getD [] = n.fraction := by
  have hwhole (c : Char) (hc : c ∈ n.whole) : (c == '.') = false := by
    have hne : c ≠ '.' := ne_of_isDigit (n.allDigits_whole c hc) (by decide)
    simp [hne]
  rw [pointed]
  split
  · next hnil =>
    rw [List.append_nil]
    exact ⟨none, Number.cutWhere_of_forall hwhole, hnil.symm⟩
  · exact ⟨some n.fraction, Number.cutWhere_append_cons hwhole rfl, rfl⟩

/-- A numeral is read as the number nearest to its value. -/
theorem magnitude?_spelled (n : Numeral) : Number.magnitude? n.spelled = some n.magnitude := by
  obtain ⟨power, hcut, hexponent⟩ := n.cut_power
  obtain ⟨fraction, hpoint, hfraction⟩ := n.cut_point
  have hwhole := Number.optionalRun?_eq_values n.allDigits_whole
  have hdigits := Number.optionalRun?_eq_values n.allDigits_fraction
  have hempty : (values n.whole).isEmpty = false := by simp [values, n.whole_ne_nil]
  have happend : values n.whole ++ values n.fraction = values (n.whole ++ n.fraction) := List.map_append.symm
  simp only [Number.magnitude?, hcut, hpoint, hfraction, hwhole, hdigits, hexponent, hempty, happend, length_values,
    Option.bind_eq_bind, Option.bind_some, Bool.false_and, Bool.false_eq_true, if_false]
  rfl

end Numeral

namespace Decimal

private theorem eq_append_zeros (s : List Char) :
    ∃ k, s = (s.reverse.dropWhile (· == '0')).reverse ++ List.replicate k '0' := by
  have hzeros : s.reverse.takeWhile (· == '0') = List.replicate (s.reverse.takeWhile (· == '0')).length '0' :=
    List.eq_replicate_iff.2 ⟨rfl, fun c hc => by simpa using List.mem_takeWhile_imp hc⟩
  refine ⟨(s.reverse.takeWhile (· == '0')).length, ?_⟩
  calc s = (s.reverse.takeWhile (· == '0') ++ s.reverse.dropWhile (· == '0')).reverse := by
        rw [List.takeWhile_append_dropWhile, List.reverse_reverse]
    _ = (s.reverse.dropWhile (· == '0')).reverse ++ (s.reverse.takeWhile (· == '0')).reverse := List.reverse_append
    _ = _ := by rw [hzeros, List.reverse_replicate, List.length_replicate]

/-- The digits without the zeros at their end, and the point, give the decimal's value. -/
private theorem digitsAndPoint_spec {d : Decimal} (h : 0 < d.coefficient) {ds : List Char} {point : Int}
    (hd : d.digitsAndPoint = (ds, point)) :
    ds ≠ [] ∧ AllDigits ds ∧ ds.head? ≠ some '0' ∧
      d.nearest = Float64.nearestDecimal (ofDigits (values ds)) (point - ds.length) := by
  obtain ⟨hds, hpoint⟩ := Prod.mk.inj hd
  obtain ⟨k, hk⟩ := eq_append_zeros (digits d.coefficient)
  rw [hds] at hk
  have hhead := head?_digits_ne_zero h
  have hne : ds ≠ [] := by
    rintro rfl
    have hall := digits_ne_nil d.coefficient
    cases k with
    | zero => exact hall hk
    | succ k => exact hhead (by rw [hk]; rfl)
  have hvalue : d.coefficient = ofDigits (values ds) * 10 ^ k := by
    rw [← ofDigits_append_zeros, ← hk, ofDigits_digits]
  refine ⟨hne, ?_, ?_, ?_⟩
  · intro c hc
    exact allDigits_digits d.coefficient c (hk ▸ List.mem_append_left _ hc)
  · rwa [hk, List.head?_append_of_ne_nil _ hne] at hhead
  · have hlength := congrArg List.length hk
    rw [List.length_append, List.length_replicate] at hlength
    have hexponent : d.exponent + k = point - ds.length := by omega
    rw [nearest, hvalue, Float64.nearestDecimal_mul_pow, hexponent]

/-- The exponent as it is written, with its sign. -/
def writtenPower (exponent : Int) : Bool × List Char := (decide (exponent < 0), padded 2 exponent.natAbs)

private theorem allDigits_writtenPower (exponent : Int) :
    ∀ p ∈ some (writtenPower exponent), p.2 ≠ [] ∧ AllDigits p.2 := by
  intro p hp
  cases hp
  exact ⟨List.append_ne_nil_of_right_ne_nil _ (digits_ne_nil _), (allDigits_zeros _).append (allDigits_digits _)⟩

private theorem signedBy_writtenPower (exponent : Int) :
    Number.signedBy (writtenPower exponent).1 (ofDigits (values (writtenPower exponent).2)) = exponent := by
  rw [writtenPower, padded, ofDigits_zeros_append, ofDigits_digits, Number.signedBy]
  split
  · next h =>
    have hneg : exponent < 0 := of_decide_eq_true h
    omega
  · next h =>
    have hnonneg : ¬ exponent < 0 := fun hneg => h (decide_eq_true hneg)
    omega

section Layouts

variable {ds : List Char} {point : Int}

/-- Zeros and a point in front of the digits. -/
def fractional (hds : AllDigits ds) (hne : ds ≠ []) (zeros : Nat) : Numeral where
  whole := ['0']
  fraction := List.replicate zeros '0' ++ ds
  power := none
  allDigits_whole := by simp [AllDigits]
  allDigits_fraction := (allDigits_zeros zeros).append hds
  allDigits_power := by simp
  whole_ne_nil := by simp
  leading := fun _ => rfl
  marked := .inl (List.append_ne_nil_of_right_ne_nil _ hne)

/-- The point behind the digits, after as many zeros as are missing. -/
def integral (hds : AllDigits ds) (hne : ds ≠ []) (hhead : ds.head? ≠ some '0') (zeros : Nat) : Numeral where
  whole := ds ++ List.replicate zeros '0'
  fraction := ['0']
  power := none
  allDigits_whole := hds.append (allDigits_zeros zeros)
  allDigits_fraction := by simp [AllDigits]
  allDigits_power := by simp
  whole_ne_nil := List.append_ne_nil_of_left_ne_nil hne _
  leading := fun h => absurd (List.head?_append_of_ne_nil ds hne ▸ h) hhead
  marked := .inl (by simp)

/-- The point between the digits. -/
def mixed (hds : AllDigits ds) (hhead : ds.head? ≠ some '0') {whole : Nat} (hpos : 0 < whole)
    (hlt : whole < ds.length) : Numeral where
  whole := ds.take whole
  fraction := ds.drop whole
  power := none
  allDigits_whole := fun c hc => hds c (List.mem_of_mem_take hc)
  allDigits_fraction := fun c hc => hds c (List.mem_of_mem_drop hc)
  allDigits_power := by simp
  whole_ne_nil := by
    rw [Ne, List.take_eq_nil_iff]
    rintro (h | rfl)
    · omega
    · simp at hlt
  leading := fun h => by
    rw [List.head?_take, if_neg (by omega)] at h
    exact absurd h hhead
  marked := .inl (by simpa using hlt)

/-- One digit before the point, and an exponent. -/
def scientific (hds : AllDigits ds) (hne : ds ≠ []) (exponent : Int) : Numeral where
  whole := ds.take 1
  fraction := ds.drop 1
  power := some (writtenPower exponent)
  allDigits_whole := fun c hc => hds c (List.mem_of_mem_take hc)
  allDigits_fraction := fun c hc => hds c (List.mem_of_mem_drop hc)
  allDigits_power := allDigits_writtenPower exponent
  whole_ne_nil := by simp [hne]
  leading := fun h => by
    cases ds with
    | nil => exact absurd rfl hne
    | cons c rest => simpa using h
  marked := .inr (by simp)

private theorem magnitude_fractional (hds : AllDigits ds) (hne : ds ≠ []) (zeros : Nat) :
    (fractional hds hne zeros).magnitude =
      Float64.nearestDecimal (ofDigits (values ds)) (-(zeros : Int) - ds.length) := by
  have hvalue : ofDigits (values (['0'] ++ (List.replicate zeros '0' ++ ds))) = ofDigits (values ds) := by
    rw [← List.append_assoc, List.singleton_append, ← List.replicate_succ, ofDigits_zeros_append]
  have hexponent : (0 : Int) - (List.replicate zeros '0' ++ ds).length = -(zeros : Int) - ds.length := by
    rw [List.length_append, List.length_replicate]
    omega
  rw [Numeral.magnitude, ← hvalue, ← hexponent]
  rfl

private theorem magnitude_integral (hds : AllDigits ds) (hne : ds ≠ []) (hhead : ds.head? ≠ some '0') (zeros : Nat) :
    (integral hds hne hhead zeros).magnitude = Float64.nearestDecimal (ofDigits (values ds)) zeros := by
  have hvalue : ofDigits (values (ds ++ List.replicate zeros '0' ++ ['0'])) =
      ofDigits (values ds) * 10 ^ (zeros + 1) := by
    rw [← ofDigits_append_zeros, List.replicate_succ', List.append_assoc]
  have hexponent : (-1 : Int) + (zeros + 1 : Nat) = zeros := by omega
  have hshift := Float64.nearestDecimal_mul_pow (ofDigits (values ds)) (zeros + 1) (-1)
  rw [hexponent, ← hvalue] at hshift
  exact hshift

private theorem magnitude_mixed (hds : AllDigits ds) (hhead : ds.head? ≠ some '0') {whole : Nat} (hpos : 0 < whole)
    (hlt : whole < ds.length) : (mixed hds hhead hpos hlt).magnitude =
      Float64.nearestDecimal (ofDigits (values ds)) ((whole : Int) - ds.length) := by
  have hexponent : (0 : Int) - (ds.drop whole).length = (whole : Int) - ds.length := by
    rw [List.length_drop]
    omega
  rw [Numeral.magnitude, ← hexponent]
  exact congrArg (fun s => Float64.nearestDecimal (ofDigits (values s)) _) (List.take_append_drop whole ds)

private theorem magnitude_scientific (hds : AllDigits ds) (hne : ds ≠ []) (exponent : Int) :
    (scientific hds hne exponent).magnitude =
      Float64.nearestDecimal (ofDigits (values ds)) (exponent + 1 - ds.length) := by
  have hpos : 0 < ds.length := List.length_pos_iff.2 hne
  have hexponent : exponent - (ds.drop 1).length = exponent + 1 - ds.length := by
    rw [List.length_drop]
    omega
  have hdigits : ds.take 1 ++ ds.drop 1 = ds := List.take_append_drop 1 ds
  rw [Numeral.magnitude, ← hexponent]
  simp only [scientific, Numeral.exponent, signedBy_writtenPower, hdigits]

end Layouts

/-- Each layout of a decimal is a numeral of the same value. -/
theorem exists_numeral {d : Decimal} (h : 0 < d.coefficient) :
    ∃ n : Numeral, d.text = n.spelled ∧ n.magnitude = d.nearest := by
  cases hd : d.digitsAndPoint with
  | mk ds point =>
    obtain ⟨hne, hds, hhead, hnearest⟩ := digitsAndPoint_spec h hd
    rw [hnearest]
    simp only [text, hd]
    by_cases hpositional : -4 < point ∧ point ≤ 16
    · rw [if_pos hpositional]
      by_cases hfront : point ≤ 0
      · refine ⟨fractional hds hne (-point).toNat, ?_, ?_⟩
        · simp [hfront, fractional, Numeral.spelled, Numeral.pointed, Numeral.powered, hne]
        · have hpoint : -((-point).toNat : Int) = point := by omega
          rw [magnitude_fractional, hpoint]
      rw [if_neg hfront]
      by_cases hbehind : ds.length ≤ point.toNat
      · refine ⟨integral hds hne hhead (point.toNat - ds.length), ?_, ?_⟩
        · simp [integral, Numeral.spelled, Numeral.pointed, Numeral.powered, List.take_of_length_le hbehind,
            List.drop_eq_nil_of_le hbehind]
        · have hpoint : ((point.toNat - ds.length : Nat) : Int) = point - ds.length := by omega
          rw [magnitude_integral, hpoint]
      · have hpos : 0 < point.toNat := by omega
        refine ⟨mixed hds hhead hpos (Nat.not_le.1 hbehind), ?_, ?_⟩
        · have hrest : ds.drop point.toNat ≠ [] := by
            rw [Ne, List.drop_eq_nil_iff]
            exact hbehind
          have hnone : point.toNat - ds.length = 0 := by omega
          simp [mixed, Numeral.spelled, Numeral.pointed, Numeral.powered, hnone, hrest]
        · have hpoint : (point.toNat : Int) = point := by omega
          rw [magnitude_mixed, hpoint]
    · rw [if_neg hpositional]
      refine ⟨scientific hds hne (point - 1), ?_, ?_⟩
      · match ds, hne with
        | [c], _ => simp [scientific, writtenPower, Numeral.spelled, Numeral.pointed, Numeral.powered]
        | c :: c' :: rest, _ => simp [scientific, writtenPower, Numeral.spelled, Numeral.pointed, Numeral.powered]
      · have hpoint : point - 1 + 1 = point := by omega
        rw [magnitude_scientific, hpoint]

end Decimal

/-- The characters of numerals and their signs. -/
def IsNumeric (c : Char) : Prop := c.isDigit = true ∨ c = '.' ∨ c = 'e' ∨ c = '+' ∨ c = '-'

private theorem Text.AllDigits.isNumeric {s : List Char} (h : AllDigits s) :
    ∀ c ∈ s, IsNumeric c := fun c hc => .inl (h c hc)

theorem isNumeric_signed (n : Int) : ∀ c ∈ signed n, IsNumeric c := by
  have hdigits := (allDigits_digits n.natAbs).isNumeric
  rw [signed]
  split
  · exact List.forall_mem_cons.2 ⟨.inr (.inr (.inr (.inr rfl))), hdigits⟩
  · exact hdigits

private theorem Numeral.isNumeric_spelled (n : Numeral) : ∀ c ∈ n.spelled, IsNumeric c := by
  have hpointed : ∀ c ∈ pointed n.fraction, IsNumeric c := by
    rw [pointed]
    split
    · simp
    · exact List.forall_mem_cons.2 ⟨.inr (.inl rfl), n.allDigits_fraction.isNumeric⟩
  have hpowered : ∀ c ∈ powered n.power, IsNumeric c := by
    cases hpower : n.power with
    | none => simp [powered]
    | some p =>
      have hds := (n.allDigits_power p hpower).2.isNumeric
      have hsign : IsNumeric (if p.1 then '-' else '+') := by
        split
        · exact .inr (.inr (.inr (.inr rfl)))
        · exact .inr (.inr (.inr (.inl rfl)))
      exact List.forall_mem_cons.2 ⟨.inr (.inr (.inl rfl)), List.forall_mem_cons.2 ⟨hsign, hds⟩⟩
  intro c hc
  rcases List.mem_append.1 hc with hc | hc
  · exact n.allDigits_whole.isNumeric c hc
  · exact (List.mem_append.1 hc).elim (hpointed c) (hpowered c)

/-- A numeral begins with a digit. -/
theorem Numeral.exists_spelled_eq_cons (n : Numeral) : ∃ c rest, n.spelled = c :: rest ∧ c.isDigit = true := by
  obtain ⟨c, rest, h⟩ := List.exists_cons_of_ne_nil n.whole_ne_nil
  have hc : c.isDigit = true := n.allDigits_whole c (by simp [h])
  exact ⟨c, rest ++ (pointed n.fraction ++ powered n.power), by rw [spelled, h, List.cons_append], hc⟩

namespace Number

private theorem isMargin_eq_false {c : Char} (h : IsNumeric c) : isMargin c = false := by
  rcases h with h | rfl | rfl | rfl | rfl
  · rw [isMargin, isBlank_of_isDigit h, Bool.false_and]
  all_goals decide

private theorem withoutMargin_eq_self {s : List Char} (h : ∀ c ∈ s, IsNumeric c) : withoutMargin s = s := by
  have hdrop (t : List Char) (ht : ∀ c ∈ t, IsNumeric c) : t.dropWhile isMargin = t := by
    cases t with
    | nil => rfl
    | cons c rest => exact List.dropWhile_cons_of_neg (by simp [isMargin_eq_false (ht c (by simp))])
  rw [withoutMargin, hdrop s h, hdrop s.reverse (by simpa using h), List.reverse_reverse]

private theorem toLower_of_isDigit {c : Char} (h : c.isDigit = true) : c.toLower = c := by
  rw [Char.isDigit_iff_toNat] at h
  have hhigh : c.toNat ≤ 57 := h.2
  unfold Char.toLower
  rw [dif_neg]
  rintro ⟨hupper, -⟩
  have hlow : 65 ≤ c.toNat := hupper
  omega

/-- A word that begins with a digit is none of the names of numbers. -/
private theorem ofList_lower_ne {c : Char} {rest name : List Char} (hc : c.isDigit = true)
    (hname : name.head?.all (! ·.isDigit) = true) (hne : name ≠ []) :
    (String.ofList ((c :: rest).map Char.toLower) == String.ofList name) = false := by
  rw [beq_eq_false_iff_ne, Ne, String.ofList_inj]
  rintro rfl
  simp [toLower_of_isDigit hc, hc] at hname

end Number

namespace Float64

theorem ofMagnitude_magnitude (x : Float64) : ofMagnitude x.negative x.magnitude = x := by
  have hlt : x.bits.toNat < 2 * signBit := x.bits.toNat_lt
  have hsum : x.bits.toNat % signBit + (if x.negative = true then signBit else 0) = x.bits.toNat := by
    by_cases hneg : signBit ≤ x.bits.toNat
    · rw [negative, decide_eq_true hneg, if_pos rfl, Nat.mod_eq_sub_mod hneg, Nat.mod_eq_of_lt (by omega)]
      omega
    · rw [negative, decide_eq_false hneg, if_neg (by simp), Nat.mod_eq_of_lt (by omega), Nat.add_zero]
  rw [ofMagnitude, magnitude, hsum, UInt64.ofNat_toNat]

theorem magnitude_lt_infinite_iff {x : Float64} : x.magnitude < infinite ↔ x.isNaN = false ∧ x.isInfinite = false := by
  simp only [isNaN, isInfinite, decide_eq_false_iff_not, beq_eq_false_iff_ne]
  omega

/-- The text of a finite number is a numeral of its value, after a sign. -/
theorem exists_numeral {x : Float64} (h : x.magnitude < infinite) : ∃ n : Numeral, n.magnitude = x.magnitude ∧
    x.text = if x.negative then '-' :: n.spelled else n.spelled := by
  obtain ⟨hnan, hinfinite⟩ := magnitude_lt_infinite_iff.1 h
  simp only [text, hnan, hinfinite, Bool.false_eq_true, if_false]
  rcases Nat.eq_zero_or_pos x.magnitude with hzero | hpos
  · have hdigits : AllDigits ['0'] := allDigits_zeros 1
    refine ⟨Decimal.fractional hdigits (by simp) 0, ?_, ?_⟩
    · rw [hzero, Decimal.magnitude_fractional]
      rfl
    · rw [if_pos hzero]
      rfl
  · obtain ⟨n, htext, hmagnitude⟩ := Decimal.exists_numeral (Decimal.coefficient_shortest hpos h)
    refine ⟨n, hmagnitude.trans (Decimal.nearest_shortest hpos h), ?_⟩
    rw [if_neg hpos.ne', htext]

theorem isNumeric_text {x : Float64} (h : x.magnitude < infinite) : ∀ c ∈ x.text, IsNumeric c := by
  obtain ⟨n, -, htext⟩ := exists_numeral h
  rw [htext]
  split
  · exact List.forall_mem_cons.2 ⟨.inr (.inr (.inr (.inr rfl))), n.isNumeric_spelled⟩
  · exact n.isNumeric_spelled

end Float64

namespace Number

private theorem takeSign_of_isDigit {c : Char} (h : c.isDigit = true) (rest : List Char) :
    takeSign (c :: rest) = (false, c :: rest) := by
  have hminus : c ≠ '-' := ne_of_isDigit h (by decide)
  have hplus : c ≠ '+' := ne_of_isDigit h (by decide)
  simp [takeSign, hminus, hplus]

/-- Every finite number is read back from its own text. -/
theorem readFloat?_text {x : Float64} (h : x.magnitude < Float64.infinite) : readFloat? x.text = some x := by
  obtain ⟨n, hmagnitude, htext⟩ := Float64.exists_numeral h
  obtain ⟨c, rest, hspelled, hc⟩ := n.exists_spelled_eq_cons
  have hmargin : withoutMargin x.text = x.text := withoutMargin_eq_self (Float64.isNumeric_text h)
  have hsign : takeSign x.text = (x.negative, n.spelled) := by
    rw [htext]
    split
    · next hneg => rw [hneg]; rfl
    · next hpos => rw [hspelled, Bool.eq_false_iff.2 hpos, takeSign_of_isDigit hc]
  have hword (name : List Char) (hname : name.head?.all (! ·.isDigit) = true) (hne : name ≠ []) :
      (String.ofList (n.spelled.map Char.toLower) == String.ofList name) = false := by
    rw [hspelled]
    exact ofList_lower_ne hc hname hne
  have hinf : (String.ofList (n.spelled.map Char.toLower) == "inf") = false := hword ['i', 'n', 'f'] rfl (by simp)
  have hinfinity : (String.ofList (n.spelled.map Char.toLower) == "infinity") = false :=
    hword ['i', 'n', 'f', 'i', 'n', 'i', 't', 'y'] rfl (by simp)
  have hnan : (String.ofList (n.spelled.map Char.toLower) == "nan") = false := hword ['n', 'a', 'n'] rfl (by simp)
  simp only [readFloat?, hmargin, hsign, hinf, hinfinity, hnan, Bool.or_false, Bool.false_eq_true, if_false,
    n.magnitude?_spelled, hmagnitude, Option.map_some, Float64.ofMagnitude_magnitude]

private theorem takeSign_signed (n : Int) : takeSign (signed n) = (decide (n < 0), digits n.natAbs) := by
  rw [signed]
  split
  · next hneg => simp [takeSign, hneg]
  · next hpos =>
    obtain ⟨c, rest, hdigits⟩ := List.exists_cons_of_ne_nil (digits_ne_nil n.natAbs)
    have hc : c.isDigit = true := allDigits_digits n.natAbs c (hdigits ▸ List.mem_cons_self)
    rw [hdigits, takeSign_of_isDigit hc, decide_eq_false hpos]

private theorem signedBy_natAbs (n : Int) : signedBy (decide (n < 0)) n.natAbs = n := by
  by_cases h : n < 0
  · rw [decide_eq_true h, signedBy, if_pos rfl]
    omega
  · rw [decide_eq_false h, signedBy, if_neg Bool.false_ne_true]
    omega

/-- Base 10 has no mark. -/
private theorem pastBaseMark_ten (s : List Char) : pastBaseMark 10 s = s := by
  rw [pastBaseMark.eq_def]
  split
  · rw [if_neg (by simp [baseMark?])]
  · rfl

/-- A whole number that is not too long is read back from its own text. -/
theorem readInt?_signed {n : Int} (h : (digits n.natAbs).length ≤ maxDigits) : readInt? (signed n) = some n := by
  have hdigits := allDigits_digits n.natAbs
  have hmargin : (signed n).dropWhile isMargin = signed n := by
    cases hsigned : signed n with
    | nil => rfl
    | cons c rest =>
      have hc : isMargin c = false := isMargin_eq_false (isNumeric_signed n c (hsigned ▸ List.mem_cons_self))
      exact List.dropWhile_cons_of_neg (by simp [hc])
  have hall : ∀ c ∈ digits n.natAbs, (c == '_' || (digitIn? 10 c).isSome) = true := by
    intro c hc
    rw [digitIn?_of_isDigit (hdigits c hc), Option.isSome_some, Bool.or_true]
  have hrun : digitRunBy? (digitIn? 10) (digits n.natAbs) = some (values (digits n.natAbs)) :=
    digitRunBy?_eq_values (fun _ => digitIn?_of_isDigit) (digits_ne_nil _) hdigits
  have hshort : ¬ maxDigits < (values (digits n.natAbs)).length := by
    rw [length_values]
    omega
  have hvalue : ofDigitsIn 10 (values (digits n.natAbs)) = n.natAbs := ofDigits_digits n.natAbs
  rw [readInt?, readWhole, hmargin, takeSign_signed]
  simp only [pastBaseMark_ten, List.takeWhile_eq_self_iff.2 hall, List.dropWhile_eq_nil_iff.2 hall, hrun,
    true_and, if_neg hshort, List.all_nil, if_true, hvalue, signedBy_natAbs]
  rfl

end Number

end Compaction
