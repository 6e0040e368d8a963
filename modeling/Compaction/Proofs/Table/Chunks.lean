import Compaction.Table.Tasks

/-!
# Chunks

A list is cut into chunks from its front (`chunks_of_ne_nil`), so all chunks but the last one are full. If only chunks
of two or more elements are kept, at most the last element of the list is lost (`flatten_long_chunks`).
-/

namespace Compaction

variable {α : Type} {size : Nat} {xs chunk : List α}

theorem chunks_sublist (h : chunk ∈ chunks size xs) : chunk.Sublist xs := by
  obtain ⟨i, -, rfl⟩ := List.mem_map.1 h
  exact (List.take_sublist _ _).trans (List.drop_sublist _ _)

theorem length_le_of_mem_chunks (h : chunk ∈ chunks size xs) : chunk.length ≤ size := by
  obtain ⟨i, -, rfl⟩ := List.mem_map.1 h
  exact List.length_take_le _ _

theorem flatten_chunks_sublist (size : Nat) (xs : List α) : (chunks size xs).flatten.Sublist xs := by
  rcases Nat.eq_zero_or_pos size with rfl | hsize
  · simp [chunks]
  · exact (flatten_chunks hsize xs).symm ▸ .refl xs

private theorem chunks_nil (hsize : 0 < size) : chunks size ([] : List α) = [] := by
  have hnone : (([] : List α).length + size - 1) / size = 0 := by
    rw [List.length_nil, Nat.zero_add]
    exact Nat.div_eq_of_lt (by omega)
  rw [chunks, hnone, List.range_zero, List.map_nil]

theorem chunks_of_ne_nil (hsize : 0 < size) (hxs : xs ≠ []) :
    chunks size xs = xs.take size :: chunks size (xs.drop size) := by
  have hlength : 0 < xs.length := List.length_pos_iff.2 hxs
  have hcount : (xs.length + size - 1) / size = ((xs.drop size).length + size - 1) / size + 1 := by
    rw [List.length_drop, show xs.length + size - 1 = xs.length - 1 + size by omega, Nat.add_div_right _ hsize]
    congr 1
    rcases Nat.le_total size xs.length with hlong | hshort
    · rw [Nat.sub_add_cancel hlong]
    · rw [Nat.div_eq_of_lt (by omega), Nat.div_eq_of_lt (by omega)]
  unfold chunks
  rw [hcount, List.range_succ_eq_map, List.map_cons, List.map_map, Nat.zero_mul, List.drop_zero]
  congr 1
  refine List.map_congr_left fun i _ => ?_
  rw [Function.comp_apply, List.drop_drop, Nat.succ_mul, Nat.add_comm]

/-- The first chunk is as long as any. -/
theorem exists_long_chunk (hsize : 2 ≤ size) (xs : List α) (h : 2 ≤ xs.length) :
    ∃ chunk ∈ chunks size xs, 2 ≤ chunk.length := by
  have hxs : xs ≠ [] := List.length_pos_iff.1 (by omega)
  refine ⟨xs.take size, ?_, ?_⟩
  · rw [chunks_of_ne_nil (by omega) hxs]
    exact List.mem_cons_self
  · rw [List.length_take]
    omega

private theorem take_append_dropLast_drop (h : xs.drop size ≠ []) :
    xs.take size ++ (xs.drop size).dropLast = xs.dropLast := by
  rw [← List.dropLast_append_of_ne_nil h, List.take_append_drop]

/-- A last chunk of a single element is there exactly if the elements before it make full chunks. -/
theorem flatten_long_chunks (hsize : 2 ≤ size) (xs : List α) :
    ((chunks size xs).filter (2 ≤ ·.length)).flatten = if xs.length % size = 1 then xs.dropLast else xs := by
  induction h : xs.length using Nat.strongRecOn generalizing xs with
  | ind length ih =>
  subst h
  by_cases hxs : xs = []
  · subst hxs
    rw [chunks_nil (by omega), List.length_nil, Nat.zero_mod]
    rfl
  · have hlength : 0 < xs.length := List.length_pos_iff.2 hxs
    have hrest := ih (xs.drop size).length (by rw [List.length_drop]; omega) (xs.drop size) rfl
    rw [chunks_of_ne_nil (by omega) hxs]
    have hfirst : (xs.take size).length = min size xs.length := List.length_take
    by_cases hone : xs.length = 1
    · -- the only chunk there is
      have hlast : xs.drop size = [] := List.drop_eq_nil_of_le (by omega)
      have hshort : ¬ decide (2 ≤ (xs.take size).length) := by
        rw [decide_eq_true_iff]
        omega
      rw [List.filter_cons, if_neg hshort, hrest, hlast, hone, Nat.mod_eq_of_lt (by omega : 1 < size)]
      obtain ⟨x, rfl⟩ := List.length_eq_one_iff.1 hone
      rfl
    · have hlong : decide (2 ≤ (xs.take size).length) := by
        rw [decide_eq_true_iff]
        omega
      rw [List.filter_cons, if_pos hlong, List.flatten_cons, hrest]
      rcases Nat.lt_or_ge xs.length size with hshort | hlong
      · rw [List.drop_eq_nil_of_le (by omega), Nat.mod_eq_of_lt hshort, if_neg hone, List.take_of_length_le (by omega)]
        simp
      · rw [List.length_drop, ← Nat.mod_eq_sub_mod hlong]
        split
        · next hlast =>
          have hmore : xs.drop size ≠ [] := fun hnil => by
            have hfull : xs.length = size := Nat.le_antisymm (List.drop_eq_nil_iff.1 hnil) hlong
            rw [hfull, Nat.mod_self] at hlast
            cases hlast
          exact take_append_dropLast_drop hmore
        · rw [List.take_append_drop]

end Compaction
