import Compaction.Calendar.Reader
import Compaction.Proofs.Codec.Utf8
import Compaction.Proofs.Number.Digits

/-!
# Dates as text

A date is read from the text that it is shown as (`Date.read?_text`): each part is read from as many digits as it is
padded to (`Date.takeNumber?_padded`), and ten of these characters are ten bytes.
-/

namespace Compaction

open Text

namespace Date

private theorem takeNumber?_append {ds : List Char} (h : AllDigits ds) (rest : List Char) :
    takeNumber? ds.length (ds ++ rest) = some (ofDigits (values ds), rest) := by
  suffices hgo : ∀ n, takeNumber?.go n ds.length (ds ++ rest) =
      some ((values ds).foldl (fun n d => 10 * n + d) n, rest) from hgo 0
  induction ds with
  | nil => exact fun n => rfl
  | cons c ds ih =>
    intro n
    have hc : c.isDigit = true := h c List.mem_cons_self
    have hds : AllDigits ds := fun d hd => h d (List.mem_cons_of_mem _ hd)
    rw [List.length_cons, List.cons_append, takeNumber?.go, if_pos hc, ih hds, values, values, List.map_cons,
      List.foldl_cons]

theorem takeNumber?_padded {width n : Nat} (hwidth : 0 < width) (hn : n < 10 ^ width) (rest : List Char) :
    takeNumber? width (padded width n ++ rest) = some (n, rest) := by
  have htaken := takeNumber?_append (allDigits_padded width n) rest
  rwa [length_padded hwidth hn, ofDigits_padded] at htaken

theorem isDigit_or_eq_of_mem_text {d : Date} {c : Char} (hc : c ∈ d.text) : c.isDigit = true ∨ c = '-' := by
  rw [text] at hc
  simp only [List.mem_append, List.mem_cons] at hc
  rcases hc with (hc | rfl | hc) | rfl | hc
  · exact .inl (allDigits_padded _ _ c hc)
  · exact .inr rfl
  · exact .inl (allDigits_padded _ _ c hc)
  · exact .inr rfl
  · exact .inl (allDigits_padded _ _ c hc)

private theorem daysIn_le (year month : Nat) : daysIn year month ≤ 31 := by
  have hall : ∀ n ∈ monthLengths year, n ≤ 31 := by
    cases h : isLeap year <;> simp [monthLengths, h]
  rw [daysIn, List.getD_eq_getElem?_getD]
  cases h : (monthLengths year)[month - 1]? with
  | none => exact Nat.zero_le _
  | some n => exact hall n (List.mem_of_getElem? h)

/-- Four digits hold the year, and two the month and the day. -/
private theorem lt_of_digits (d : Date) : d.year < 10 ^ 4 ∧ d.month < 10 ^ 2 ∧ d.day < 10 ^ 2 := by
  have hdays := daysIn_le d.year d.month
  have hvalid := d.valid
  omega

private theorem size_text (d : Date) : Utf8.size d.text = 10 := by
  have hbytes : ∀ c ∈ d.text, c.toNat < 0x80 := by
    intro c hc
    rcases isDigit_or_eq_of_mem_text hc with hc | rfl
    · rw [Char.isDigit_iff_toNat] at hc
      have hhigh : c.toNat ≤ 57 := hc.2
      omega
    · decide
  obtain ⟨hyear, hmonth, hday⟩ := d.lt_of_digits
  rw [Utf8.size_eq_length hbytes, text]
  simp only [List.length_append, List.length_cons, length_padded (Nat.succ_pos _) hyear,
    length_padded (Nat.succ_pos _) hmonth, length_padded (Nat.succ_pos _) hday]

private theorem of?_eq_some (d : Date) : of? d.year d.month d.day = some d := by
  rw [of?, dif_pos d.valid]

private theorem readStart?_text (d : Date) : readStart? d.text = some d := by
  obtain ⟨hyear, hmonth, hday⟩ := d.lt_of_digits
  have hyear := takeNumber?_padded (by decide) hyear ('-' :: (padded 2 d.month ++ '-' :: padded 2 d.day))
  have hmonth := takeNumber?_padded (by decide) hmonth ('-' :: padded 2 d.day)
  have hday := takeNumber?_padded (by decide) hday []
  rw [List.append_nil] at hday
  -- the month begins with a digit, so no week is read
  have hne : padded 2 d.month ≠ [] := List.append_ne_nil_of_right_ne_nil _ (digits_ne_nil d.month)
  obtain ⟨c, rest, hcons⟩ := List.exists_cons_of_ne_nil hne
  have hdigit : c.isDigit = true := allDigits_padded 2 d.month c (hcons ▸ List.mem_cons_self)
  have hc : c ≠ 'W' := ne_of_isDigit hdigit (by decide)
  rw [hcons, List.cons_append] at hyear hmonth
  rw [text, List.append_assoc, List.cons_append, hcons, List.cons_append, readStart?, hyear]
  simp [passSeparator?, hc, hmonth, hday, of?_eq_some]

theorem read?_text (d : Date) : read? d.text = some d := by
  rw [read?, size_text]
  exact d.readStart?_text

end Date

end Compaction
