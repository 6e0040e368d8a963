import Compaction.Job.Slices
import Mathlib.Data.List.FinRange
import Mathlib.Data.List.Perm.Basic

/-!
# Dealing out units

Units that are dealt out one by one are each in exactly one slice (`flatten_slices_perm`). The slices do not depend on
what the units are (`slices_map`), so dealing out the places of a list tells which slice each place of it gets to. A
slice keeps the order of the list (`slices_sublist`), and it has as many units as there are whole turns before them
(`length_stride`), which makes all slices about as long (`slices_balanced`).
-/

namespace Compaction

variable {α : Type}

private theorem flatten_strides_perm (n : Nat) (units : List α) :
    ((List.range (n + 1)).map fun i => stride (n + 1) i units).flatten.Perm units := by
  -- the first unit begins the first slice, and each slice of the others moves up by one place
  induction units with
  | nil =>
    have hnil : ∀ i ∈ List.range (n + 1), stride (n + 1) i ([] : List α) = [] := fun i _ => by cases i <;> rfl
    rw [List.map_congr_left hnil, List.map_const', List.flatten_replicate_nil]
  | cons x rest ih =>
    have hfirst : ((List.range (n + 1)).map fun i => stride (n + 1) i (x :: rest)).flatten =
        x :: (stride (n + 1) n rest ++ ((List.range n).map fun i => stride (n + 1) i rest).flatten) := by
      rw [List.range_succ_eq_map, List.map_cons, List.map_map, List.flatten_cons]
      rfl
    have hlast : ((List.range (n + 1)).map fun i => stride (n + 1) i rest).flatten =
        ((List.range n).map fun i => stride (n + 1) i rest).flatten ++ stride (n + 1) n rest := by
      rw [List.range_succ, List.map_append, List.flatten_append, List.map_singleton, List.flatten_singleton]
    rw [hfirst]
    rw [hlast] at ih
    exact (List.perm_append_comm.trans ih).cons x

/-- No unit is lost and none is dealt out twice. -/
theorem flatten_slices_perm (units : List α) (workers : Int) : (slices units workers).flatten.Perm units := by
  unfold slices
  dsimp only
  have hpos : 0 < (max 1 (min workers units.length)).toNat := by omega
  obtain ⟨n, hn⟩ := Nat.exists_eq_succ_of_ne_zero (Nat.ne_of_gt hpos)
  rw [List.flatten_filter_not_isEmpty, hn]
  exact flatten_strides_perm n units

private theorem stride_map {β : Type} (f : α → β) (n skip : Nat) (units : List α) :
    stride n skip (units.map f) = (stride n skip units).map f := by
  induction units generalizing skip with
  | nil => cases skip <;> rfl
  | cons x rest ih =>
    cases skip with
    | zero => exact congrArg (f x :: ·) (ih (n - 1))
    | succ skip => exact ih skip

private theorem stride_sublist (n skip : Nat) (units : List α) : (stride n skip units).Sublist units := by
  induction units generalizing skip with
  | nil => cases skip <;> exact List.Sublist.refl []
  | cons x rest ih =>
    cases skip with
    | zero => exact (ih (n - 1)).cons_cons x
    | succ skip => exact (ih skip).cons x

/-- One unit for each turn that the list has room for after the ones that are passed over. -/
theorem length_stride {n : Nat} (hn : 0 < n) (skip : Nat) (units : List α) :
    (stride n skip units).length = (units.length + (n - 1) - skip) / n := by
  induction units generalizing skip with
  | nil =>
    have hempty : stride n skip ([] : List α) = [] := by cases skip <;> rfl
    rw [hempty, List.length_nil, Nat.zero_add, Nat.div_eq_of_lt (by omega)]
  | cons x rest ih =>
    cases skip with
    | zero =>
      have hturn : (x :: rest).length + (n - 1) - 0 = rest.length + (n - 1) - (n - 1) + n := by
        rw [List.length_cons]
        omega
      rw [hturn, Nat.add_div_right _ hn]
      exact congrArg (· + 1) (ih (n - 1))
    | succ skip =>
      have hpass : (x :: rest).length + (n - 1) - (skip + 1) = rest.length + (n - 1) - skip := by
        rw [List.length_cons]
        omega
      rw [hpass]
      exact ih skip

/-- The number of slices: as many as there are workers, but at least one and at most as many as units. -/
def sliceCount (units : List α) (workers : Int) : Nat := (min (max 1 workers) units.length).toNat

private theorem sliceCount_le (units : List α) (workers : Int) : sliceCount units workers ≤ units.length := by
  unfold sliceCount
  omega

/-- With at most as many slices as units no slice stays empty. -/
private theorem slices_eq_map (units : List α) (workers : Int) :
    slices units workers =
      (List.range (sliceCount units workers)).map fun i => stride (sliceCount units workers) i units := by
  unfold slices
  dsimp only
  rcases Nat.eq_zero_or_pos units.length with hlength | hlength
  · cases List.length_eq_zero_iff.1 hlength
    have hone : (max 1 (min workers (List.length ([] : List α)))).toNat = 1 := by simp
    have hzero : sliceCount ([] : List α) workers = 0 := Nat.le_zero.1 (sliceCount_le [] workers)
    rw [hone, hzero]
    rfl
  · have hcount : (max 1 (min workers units.length)).toNat = sliceCount units workers := by
      unfold sliceCount
      omega
    rw [hcount, List.filter_eq_self]
    intro slice hslice
    obtain ⟨i, hi, rfl⟩ := List.mem_map.1 hslice
    have hi := List.mem_range.1 hi
    have hle := sliceCount_le units workers
    have hfull : 0 < (stride (sliceCount units workers) i units).length := by
      rw [length_stride (Nat.zero_lt_of_lt hi)]
      exact Nat.div_pos (by omega) (Nat.zero_lt_of_lt hi)
    simpa [List.length_pos_iff] using hfull

theorem slices_map {β : Type} (f : α → β) (units : List α) (workers : Int) :
    slices (units.map f) workers = (slices units workers).map (List.map f) := by
  have hcount : sliceCount (units.map f) workers = sliceCount units workers := by
    rw [sliceCount, List.length_map, sliceCount]
  rw [slices_eq_map, slices_eq_map, hcount, List.map_map]
  exact List.map_congr_left fun i _ => stride_map f _ i units

theorem slices_sublist {units slice : List α} {workers : Int} (h : slice ∈ slices units workers) :
    slice.Sublist units := by
  obtain ⟨i, -, rfl⟩ := List.mem_map.1 (List.mem_of_mem_filter h)
  exact stride_sublist _ i units

private theorem ne_nil_of_mem_slices {units slice : List α} {workers : Int} (h : slice ∈ slices units workers) :
    slice ≠ [] := by
  have hkept := List.of_mem_filter h
  simpa using hkept

private theorem length_slices (units : List α) (workers : Int) :
    (slices units workers).length = sliceCount units workers := by
  rw [slices_eq_map, List.length_map, List.length_range]

/-- The first slices may have one unit more than the last ones. -/
private theorem length_of_mem_slices {units slice : List α} {workers : Int} (h : slice ∈ slices units workers) :
    units.length / sliceCount units workers ≤ slice.length ∧
      slice.length ≤ units.length / sliceCount units workers + 1 := by
  rw [slices_eq_map] at h
  obtain ⟨i, hi, rfl⟩ := List.mem_map.1 h
  have hi := List.mem_range.1 hi
  have hpos := Nat.zero_lt_of_lt hi
  rw [length_stride hpos]
  constructor
  · exact Nat.div_le_div_right (by omega)
  · rw [← Nat.add_div_right _ hpos]
    exact Nat.div_le_div_right (by omega)

/-- Each place of the list is in exactly one slice, the slices keep the order of the list, none of them is empty, there
are as many as workers if the list is long enough for that, and they are about as long as each other. -/
theorem slices_balanced (units : List α) (workers : Int) :
    ∃ places : List (List (Fin units.length)),
      slices units workers = places.map (List.map units.get) ∧
      places.flatten.Perm (List.finRange units.length) ∧
      (∀ p ∈ places, p.Pairwise (· < ·)) ∧
      (∀ p ∈ places, p ≠ []) ∧
      (places.length : Int) = min (max 1 workers) units.length ∧
      ∀ p ∈ places, ∀ q ∈ places, p.length ≤ q.length + 1 := by
  refine ⟨slices (List.finRange units.length) workers, ?_, flatten_slices_perm _ _, ?_, ?_, ?_, ?_⟩
  · rw [← slices_map, List.map_get_finRange]
  · intro p hp
    exact (List.pairwise_lt_finRange units.length).sublist (slices_sublist hp)
  · intro p hp
    exact ne_nil_of_mem_slices hp
  · rw [length_slices, sliceCount, List.length_finRange]
    omega
  · intro p hp q hq
    exact (length_of_mem_slices hp).2.trans (Nat.add_le_add_right (length_of_mem_slices hq).1 1)

end Compaction
