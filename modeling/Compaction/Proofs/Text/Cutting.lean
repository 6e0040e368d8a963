import Compaction.Text.Blank
import Compaction.Text.Pieces
import Mathlib.Data.List.DropRight

/-!
# Cutting texts

Pieces hold no separator, and joining such pieces with one and cutting the text again gives them back
(`not_sep_of_mem_pieces`, `pieces_joinWith`). Cutting at separators of two kinds is cutting at those of the one kind
and then at those of the other (`pieces_or`). Trimming a text a second time changes nothing (`trim_trim`), and so does
trimming one without blank space (`trim_eq_self`).
-/

namespace Compaction.Text

variable {sep : Char → Bool} {mark c : Char} {s rest : List Char} {ps : List (List Char)}

/-! ### Pieces -/

private theorem pieces_eq_splitOnP (sep : Char → Bool) (s : List Char) : pieces sep s = s.splitOnP sep := by
  induction s with
  | nil => rfl
  | cons c rest ih =>
    obtain ⟨p, ps, h⟩ := List.exists_cons_of_ne_nil (pieces_ne_nil sep rest)
    rw [List.splitOnP_cons_eq_if_modifyHead, ← ih, pieces, h]
    rfl

private theorem pieces_append (hs : ∀ c ∈ s, sep c = false) (hmark : sep mark) (rest : List Char) :
    pieces sep (s ++ mark :: rest) = s :: pieces sep rest := by
  simp only [pieces_eq_splitOnP]
  exact List.splitOnP_append_cons_of_forall_mem hs mark hmark rest

theorem not_sep_of_mem_pieces {p : List Char} (h : p ∈ pieces sep s) : ∀ c ∈ p, sep c = false := by
  induction s generalizing p with
  | nil =>
    rw [pieces, List.mem_singleton] at h
    subst h
    exact fun c hc => by cases hc
  | cons c rest ih =>
    obtain ⟨first, others, hrest⟩ := List.exists_cons_of_ne_nil (pieces_ne_nil sep rest)
    rw [pieces, hrest] at h
    rw [hrest] at ih
    split at h
    · rcases List.mem_cons.1 h with rfl | h
      · exact fun c hc => by cases hc
      · exact ih h
    · next hc =>
      rcases List.mem_cons.1 h with rfl | h
      · exact List.forall_mem_cons.2 ⟨by simpa using hc, ih (by simp)⟩
      · exact ih (List.mem_cons_of_mem _ h)

/-- Cutting at two kinds of separators is cutting at the outer ones and then each piece at the inner ones. -/
theorem pieces_or (inner outer : Char → Bool) (s : List Char) :
    pieces (fun c => inner c || outer c) s = (pieces outer s).flatMap (pieces inner) := by
  induction s with
  | nil => rfl
  | cons c rest ih =>
    obtain ⟨p, ps, h⟩ := List.exists_cons_of_ne_nil (pieces_ne_nil outer rest)
    obtain ⟨q, qs, hp⟩ := List.exists_cons_of_ne_nil (pieces_ne_nil inner p)
    rw [h, List.flatMap_cons, hp] at ih
    rw [pieces, pieces, ih, h]
    cases hi : inner c <;> cases ho : outer c <;> simp [pieces, hi, hp]

theorem joinWith_cons_cons (sep p q : List Char) (ps : List (List Char)) :
    joinWith sep (p :: q :: ps) = p ++ sep ++ joinWith sep (q :: ps) := rfl

theorem pieces_joinWith (hne : ps ≠ []) (hmark : sep mark) (h : ∀ p ∈ ps, ∀ c ∈ p, sep c = false) :
    pieces sep (joinWith [mark] ps) = ps := by
  induction ps with
  | nil => exact absurd rfl hne
  | cons p rest ih =>
    rw [List.forall_mem_cons] at h
    cases rest with
    | nil =>
      rw [joinWith, pieces_eq_splitOnP]
      exact List.splitOnP_eq_singleton h.1
    | cons q rest =>
      rw [joinWith_cons_cons, List.append_assoc, List.singleton_append, pieces_append h.1 hmark,
        ih (List.cons_ne_nil q rest) h.2]

theorem mem_joinWith {sep : List Char} (h : c ∈ joinWith sep ps) : c ∈ sep ∨ ∃ p ∈ ps, c ∈ p := by
  induction ps with
  | nil => cases h
  | cons p rest ih =>
    cases rest with
    | nil => exact .inr ⟨p, by simp, h⟩
    | cons q rest =>
      rw [joinWith_cons_cons, List.mem_append, List.mem_append] at h
      rcases h with (h | h) | h
      · exact .inr ⟨p, by simp, h⟩
      · exact .inl h
      · rcases ih h with h | ⟨p', hp', h⟩
        · exact .inl h
        · exact .inr ⟨p', List.mem_cons_of_mem _ hp', h⟩

/-! ### One mark -/

theorem fst_cutAt (mark : Char) (s : List Char) : (cutAt mark s).1 = s.takeWhile (· ≠ mark) := by
  induction s with
  | nil => rfl
  | cons c rest ih =>
    by_cases hc : c = mark
    · simp [cutAt, hc]
    · simp [cutAt, hc, ih]

theorem snd_cutAt_eq_none : (cutAt mark s).2 = none ↔ mark ∉ s := by
  induction s with
  | nil => simp [cutAt]
  | cons c rest ih =>
    by_cases hc : c = mark
    · simp [cutAt, hc]
    · simp [cutAt, hc, ih, Ne.symm hc]

theorem suffix_of_cutAt (h : (cutAt mark s).2 = some rest) : rest <:+ s := by
  induction s with
  | nil => cases h
  | cons c s ih =>
    rw [cutAt] at h
    split at h
    · cases h
      exact List.suffix_cons c rest
    · exact (ih h).trans (List.suffix_cons c s)

theorem cutAt_append (h : mark ∉ s) (rest : List Char) : cutAt mark (s ++ mark :: rest) = (s, some rest) := by
  induction s with
  | nil => simp [cutAt]
  | cons c s ih =>
    rw [List.mem_cons, not_or] at h
    rw [List.cons_append, cutAt, if_neg (Ne.symm h.1), ih h.2]

/-! ### Trimming -/

theorem trim_sublist (s : List Char) : (trim s).Sublist s :=
  (List.rdropWhile_prefix isBlank (trimStart s)).sublist.trans (List.dropWhile_sublist isBlank)

theorem trim_eq_self (h : ∀ c ∈ s, isBlank c = false) : trim s = s := by
  have hstart : trimStart s = s := by
    cases s with
    | nil => rfl
    | cons c rest => exact List.dropWhile_cons_of_neg (by simp [h c List.mem_cons_self])
  rw [trim, hstart]
  refine List.rdropWhile_eq_self_iff.2 fun hne => ?_
  simp [h _ (List.getLast_mem hne)]

theorem trim_trim (s : List Char) : trim (trim s) = trim s := by
  have hstart : trimStart (trim s) = trim s := by
    obtain ⟨tail, htail⟩ := List.rdropWhile_prefix isBlank (trimStart s)
    have hfirst : trimStart (trimStart s) = trimStart s := List.dropWhile_idempotent isBlank s
    -- what is left of a text begins as the text does without its first blanks
    cases h : trim s with
    | nil => rfl
    | cons c rest =>
      have hs : c :: (rest ++ tail) = trimStart s := by
        rw [← htail, ← List.cons_append, ← h]
        rfl
      rw [← hs] at hfirst
      have hc : ¬ isBlank c := List.dropWhile_eq_self_iff.1 hfirst (by simp)
      exact List.dropWhile_cons_of_neg hc
  rw [trim, hstart]
  exact List.rdropWhile_idempotent isBlank (trimStart s)

end Compaction.Text
