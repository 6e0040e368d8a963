import Compaction.Proofs.Effect
import Compaction.Table.Reorder

/-!
# Sorted rows

Sorting rows by a strategy gives the same rows in some order, whichever strategy and columns (`Table.sortRows_perm`).
-/

namespace Compaction

variable {rows inOrder : List Row} {strategy : Strategy} {columns : List String}

namespace Order

private theorem sortByCurve_perm (h : sortByCurve strategy columns rows = .ok inOrder) : inOrder.Perm rows := by
  obtain ⟨columnRanks, -, h⟩ := Except.bind_eq_ok.1 h
  obtain ⟨places, hplaces, h⟩ := Except.bind_eq_ok.1 h
  cases h
  have hlength : places.length = rows.length := by
    rw [Except.length_of_mapM_eq_ok hplaces]
    simp [points]
  have hrows : (places.zip rows).map Prod.snd = rows := List.map_snd_zip (by omega)
  exact ((sorted_perm _ _).map _).trans (.of_eq hrows)

theorem sortRows_perm (h : sortRows rows strategy columns = .ok inOrder) : inOrder.Perm rows := by
  have hcurve : (if columns.isEmpty then .error (.sortNeedsColumns strategy) else sortByCurve strategy columns rows) =
      .ok inOrder → inOrder.Perm rows := by
    intro h
    split at h
    · cases h
    · exact sortByCurve_perm h
  cases strategy with
  | none =>
    cases h
    exact .refl _
  | order =>
    rw [sortRows] at h
    split at h
    · cases h
    · split at h
      · next hs =>
        cases h
        exact sortBy?_perm hs
      · cases h
  | zorder => exact hcurve h
  | hilbert => exact hcurve h

end Order

namespace Table

variable {t : Table} {rows' : List Row}

theorem sortRows_eq_ok : t.sortRows rows strategy columns = .ok inOrder ↔
    unknownColumns rows columns = [] ∧ Order.sortRows rows strategy columns = .ok inOrder := by
  rw [sortRows]
  cases unknownColumns rows columns <;> simp

/-- Which columns are unknown does not depend on the order of the rows. -/
theorem unknownColumns_perm (h : rows.Perm rows') (columns : List String) :
    unknownColumns rows columns = unknownColumns rows' columns := by
  rw [unknownColumns, unknownColumns, h.isEmpty_eq]
  simp only [h.all_eq]

theorem sortRows_perm (h : t.sortRows rows strategy columns = .ok inOrder) : inOrder.Perm rows :=
  Order.sortRows_perm (sortRows_eq_ok.1 h).2

end Table

end Compaction
