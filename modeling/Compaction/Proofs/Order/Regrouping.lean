import Compaction.Proofs.Order.Clustering
import Compaction.Proofs.Order.Dense

/-!
# Sorting rows again

The places of rows on a curve do not depend on how the rows stand (`exists_placed_perm`), so every strategy sorts
rows by one key, however they stand at first (`exists_sortKey`). Sorted rows that are dealt out to parts, in any order
of the parts, and sorted again stand in each part as they stood (`sortRows_regrouped`).
-/

namespace Compaction.Order

variable {α κ γ : Type} [LinearOrder κ] [DecidableEq γ] {f : α → κ} {part : α → γ} {xs ys xs' ys' : List α}
  {rows rows' inOrder : List Row} {columns : List String} {strategy : Strategy}

/-! ### Parts -/

/-- Lists that have the same parts have the same elements. -/
theorem perm_of_parts (h : ∀ k, xs.filter (fun x => part x = k) = ys.filter (fun x => part x = k)) : xs.Perm ys := by
  classical
  rw [List.perm_iff_count]
  intro x
  have hcount := congrArg (List.count x) (h (part x))
  rwa [List.count_filter (by simp), List.count_filter (by simp)] at hcount

/-- Sorting by a key for which each part is in order leaves the parts as they are. -/
private theorem SortedBy.regrouped (h : SortedBy f xs ys) (h' : SortedBy f xs' ys')
    (hparts : ∀ k, xs'.filter (fun x => part x = k) = ys.filter (fun x => part x = k)) (k : γ) :
    ys'.filter (fun x => part x = k) = ys.filter (fun x => part x = k) := by
  have hagain := h'.filter fun x => part x = k
  rw [hparts k] at hagain
  exact hagain.unique (sortedBy_of_pairwise (h.ordered.filter _))

/-! ### One key for all orders of the rows -/

private theorem largest_perm (hp : rows.Perm rows') (rank : String → Row → Nat) (columns : List String) :
    largest (columns.map fun c => rows.map (rank c)) = largest (columns.map fun c => rows'.map (rank c)) := by
  have hflat : (columns.map fun c => rows.map (rank c)).flatten.Perm
      (columns.map fun c => rows'.map (rank c)).flatten := by
    rw [← List.flatMap_def, ← List.flatMap_def]
    exact List.Perm.flatMap_left columns fun c _ => hp.map (rank c)
  exact hflat.foldl_eq 0

theorem exists_placed_perm (hcurve : strategy = .zorder ∨ strategy = .hilbert) (hcolumns : columns ≠ [])
    (hordered : ∀ c ∈ columns, TotallyOrdered (rows.map (·.get c))) (hkeyed : Keyed columns rows) :
    ∃ rank bits place, ∀ rows', rows.Perm rows' → Placed strategy columns rows' rank bits place := by
  obtain ⟨rank, hranked, hranks⟩ := exists_columnRanks hordered hkeyed
  obtain ⟨place, hplace⟩ := exists_place hcurve hcolumns rank
    (largest (columns.map fun c => rows.map fun r => rank c (r.get c)))
  refine ⟨rank, _, place, fun rows' hp => placed_of_ranks (fun c hc => ?_) ?_ ?_ hplace⟩
  · exact (hranked c hc).subset (hp.map _).symm.subset
  · rw [Except.mapM_eq_ok, List.forall₂_map_right_iff, List.forall₂_same] at hranks ⊢
    intro c hc
    have hrank : ranks (rows.map (·.get c)) = .ok ((rows.map (·.get c)).map (rank c)) := by
      rw [hranks c hc, List.map_map]
      rfl
    rw [ranks_perm (hordered c hc) hrank (hranked c hc) (hp.map _), List.map_map]
    rfl
  · rw [largest_perm hp fun c r => rank c (r.get c)]

/-- If rows can be sorted, the same rows are sorted by the same key however they stand at first. -/
theorem exists_sortKey (hstrategy : strategy ≠ .none)
    (hordered : ∀ c ∈ columns, TotallyOrdered (rows.map (·.get c)))
    (hsort : sortRows rows strategy columns = .ok inOrder) :
    ∃ (κ : Type) (_ : LinearOrder κ) (key : Row → κ), ∀ rows', rows.Perm rows' →
      ∃ inOrder', sortRows rows' strategy columns = .ok inOrder' ∧ SortedBy key rows' inOrder' := by
  have hcolumns : columns ≠ [] := by
    rintro rfl
    cases strategy <;> first | exact hstrategy rfl | cases hsort
  by_cases horder : strategy = .order
  · subst horder
    obtain ⟨rank, hranked⟩ := exists_ranked hordered
    refine ⟨List Nat, inferInstance, coordinates rank columns, fun rows' hp => ?_⟩
    have hranked' : Ranked rank columns rows' := fun c hc => (hranked c hc).subset (hp.map _).symm.subset
    exact hranked'.exists_sortRows hcolumns
  · have hcurve : strategy = .zorder ∨ strategy = .hilbert := by
      cases strategy <;> simp at horder hstrategy ⊢
    have hkeyed : Keyed columns rows := by
      by_contra hnot
      rw [sortRows_eq_badType hcurve hcolumns hnot] at hsort
      cases hsort
    obtain ⟨rank, bits, place, hplaced⟩ := exists_placed_perm hcurve hcolumns hordered hkeyed
    exact ⟨Int, inferInstance, place, fun rows' hp => (hplaced rows' hp).exists_sortRows hcurve hcolumns⟩

/-- Sorted rows whose parts are put together in another order are sorted again without a change in any part. -/
theorem sortRows_regrouped {part : Row → γ} (hordered : ∀ c ∈ columns, TotallyOrdered (rows.map (·.get c)))
    (hsort : sortRows rows strategy columns = .ok inOrder)
    (hparts : ∀ k, rows'.filter (fun r => part r = k) = inOrder.filter (fun r => part r = k)) :
    ∃ inOrder', sortRows rows' strategy columns = .ok inOrder' ∧
      ∀ k, inOrder'.filter (fun r => part r = k) = inOrder.filter (fun r => part r = k) := by
  by_cases hstrategy : strategy = .none
  · subst hstrategy
    exact ⟨rows', rfl, hparts⟩
  · obtain ⟨κ, _, key, hkey⟩ := exists_sortKey hstrategy hordered hsort
    have hp : rows.Perm rows' := (sortRows_perm hsort).symm.trans (perm_of_parts hparts).symm
    obtain ⟨first, hfirst, hsorted⟩ := hkey rows (.refl rows)
    obtain ⟨again, hagain, hsorted'⟩ := hkey rows' hp
    obtain rfl : first = inOrder := Except.ok.inj (hfirst.symm.trans hsort)
    exact ⟨again, hagain, hsorted.regrouped hsorted' hparts⟩

end Compaction.Order
