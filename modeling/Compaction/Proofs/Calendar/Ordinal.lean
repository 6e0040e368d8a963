import Compaction.Calendar.Date
import Mathlib.Order.Monotone.Basic

/-!
# Days by their number

No two days have the same number (`Date.ordinal_inj`): the days of a year come after those of the years before it, and
those of a month after those of the months before it.
-/

namespace Compaction

/-- What comes before a place, and what is there, comes before every later place. -/
private theorem Number.total_take_add_le (lengths : List Nat) {i j : Nat} (h : i < j) :
    total (lengths.take i) + lengths.getD i 0 ≤ total (lengths.take j) := by
  induction lengths generalizing i j with
  | nil => simp [total]
  | cons n rest ih =>
    cases j with
    | zero => omega
    | succ j =>
      cases i with
      | zero => simp [total]
      | succ i =>
        have hrest := ih (Nat.lt_of_succ_lt_succ h)
        simp only [List.take_succ_cons, total, List.getD_cons_succ]
        omega

namespace Date

private theorem total_monthLengths (year : Nat) :
    Number.total (monthLengths year) = if isLeap year then 366 else 365 := by
  cases h : isLeap year <;> simp [monthLengths, Number.total, h]

private theorem daysBeforeYear_succ {year : Nat} (h : 1 ≤ year) :
    daysBeforeYear (year + 1) = daysBeforeYear year + Number.total (monthLengths year) := by
  obtain ⟨n, rfl⟩ := Nat.exists_eq_add_of_le' h
  have hleap : isLeap (n + 1) ↔ 4 ∣ n + 1 ∧ (¬ 100 ∣ n + 1 ∨ 400 ∣ n + 1) := by
    simp [isLeap, Nat.dvd_iff_mod_eq_zero]
  -- a number that 400 divides is divided by 100, and one that 100 divides by 4
  have hcentury : 400 ∣ n + 1 → 100 ∣ n + 1 := fun h => Nat.dvd_trans (by decide) h
  have hfour : 100 ∣ n + 1 → 4 ∣ n + 1 := fun h => Nat.dvd_trans (by decide) h
  have hsmall : n / 100 ≤ n * 365 := by omega
  rw [total_monthLengths, daysBeforeYear, daysBeforeYear]
  simp only [Nat.add_sub_cancel, Nat.succ_div, hleap]
  by_cases h4 : 4 ∣ n + 1 <;> by_cases h100 : 100 ∣ n + 1 <;> by_cases h400 : 400 ∣ n + 1 <;>
    simp only [h4, h100, h400, if_true, if_false, not_true, not_false_iff, true_and, false_and, or_true, true_or,
      false_or] at hcentury hfour ⊢ <;> omega

private theorem daysBeforeYear_mono : Monotone daysBeforeYear := by
  refine monotone_nat_of_le_succ fun year => ?_
  rcases Nat.eq_zero_or_pos year with rfl | h
  · exact Nat.zero_le _
  · rw [daysBeforeYear_succ h]
    exact Nat.le_add_right _ _

private theorem daysBeforeYear_lt_ordinal (d : Date) : daysBeforeYear d.year < d.ordinal := by
  have hday := d.valid.2.2.1
  unfold ordinal
  omega

/-- A day is not after the last one of its month. -/
private theorem total_add_day_le (d : Date) :
    Number.total ((monthLengths d.year).take (d.month - 1)) + d.day ≤
      Number.total ((monthLengths d.year).take d.month) := by
  have hday : d.day ≤ (monthLengths d.year).getD (d.month - 1) 0 := d.valid.2.2.2
  have hmonth := d.valid.2.1
  have hnext := Number.total_take_add_le (monthLengths d.year) (i := d.month - 1) (j := d.month) (by omega)
  omega

private theorem ordinal_le_daysBeforeYear (d : Date) : d.ordinal ≤ daysBeforeYear (d.year + 1) := by
  have hmonth := d.valid.2.1
  have hlast := d.total_add_day_le
  have hyear := Number.total_take_add_le (monthLengths d.year) (i := d.month) (j := 13) (by omega)
  have hwhole : (monthLengths d.year).take 13 = monthLengths d.year := rfl
  rw [hwhole] at hyear
  rw [daysBeforeYear_succ d.valid.1.1]
  unfold ordinal
  omega

private theorem ordinal_lt_of_year_lt {d e : Date} (h : d.year < e.year) : d.ordinal < e.ordinal :=
  calc
    d.ordinal ≤ daysBeforeYear (d.year + 1) := d.ordinal_le_daysBeforeYear
    _ ≤ daysBeforeYear e.year := daysBeforeYear_mono h
    _ < e.ordinal := e.daysBeforeYear_lt_ordinal

private theorem ordinal_lt_of_month_lt {d e : Date} (hyear : d.year = e.year) (h : d.month < e.month) :
    d.ordinal < e.ordinal := by
  have hlast := d.total_add_day_le
  have hday := e.valid.2.2.1
  have hmonths : Number.total ((monthLengths d.year).take d.month) ≤
      Number.total ((monthLengths d.year).take (e.month - 1)) := by
    rcases Nat.eq_or_lt_of_le (Nat.le_sub_one_of_lt h) with hsame | hlt
    · exact Nat.le_of_eq (by rw [← hsame])
    · exact Nat.le_of_add_right_le (Number.total_take_add_le (monthLengths d.year) hlt)
  rw [hyear] at hlast hmonths
  unfold ordinal
  rw [hyear]
  omega

theorem ordinal_inj {d e : Date} : d.ordinal = e.ordinal ↔ d = e := by
  refine ⟨fun h => ?_, fun h => h ▸ rfl⟩
  have hyear : d.year = e.year := by
    rcases Nat.lt_trichotomy d.year e.year with hlt | hsame | hlt
    · exact absurd h (Nat.ne_of_lt (ordinal_lt_of_year_lt hlt))
    · exact hsame
    · exact absurd h.symm (Nat.ne_of_lt (ordinal_lt_of_year_lt hlt))
  have hmonth : d.month = e.month := by
    rcases Nat.lt_trichotomy d.month e.month with hlt | hsame | hlt
    · exact absurd h (Nat.ne_of_lt (ordinal_lt_of_month_lt hyear hlt))
    · exact hsame
    · exact absurd h.symm (Nat.ne_of_lt (ordinal_lt_of_month_lt hyear.symm hlt))
  have hday : d.day = e.day := by
    unfold ordinal at h
    rw [hyear, hmonth] at h
    omega
  obtain ⟨year, month, day, hvalid⟩ := d
  obtain ⟨year', month', day', hvalid'⟩ := e
  cases hyear
  cases hmonth
  cases hday
  rfl

end Date

end Compaction
