import Compaction.Proofs.Order.Clustering

/-!
# Rows on a line

The place of a point on a line is its coordinate, along either curve (`Placed.place_single`). So rows that are sorted by
one column come in the same order whatever the strategy, as long as its values have ranks (`sortRows_single`).
-/

namespace Compaction.Order

variable {rows inOrder : List Row} {strategy : Strategy} {rank : String → Value → Nat} {column : String} {bits : Nat}
  {place : Row → Int} {r : Row}

/-- Of one coordinate nothing is interleaved. -/
private theorem zPlace_singleton (n bits : Nat) : zPlace [n] bits = n % 2 ^ bits := by
  induction bits with
  | zero => simp [zPlace, interleave, Nat.mod_one]
  | succ bits ih =>
    have hcolumn : bitColumn bits [n] 0 = n / 2 ^ bits % 2 := by simp [bitColumn]
    rw [zPlace_succ, ih, hcolumn, Nat.mod_pow_succ, List.length_singleton]
    ring

theorem Placed.place_single (h : Placed strategy [column] rows rank bits place)
    (hcurve : strategy = .zorder ∨ strategy = .hilbert) (hr : r ∈ rows) : place r = rank column (r.get column) := by
  have hfits := h.fits r hr
  have hposition := h.position r hr
  rcases hcurve with rfl | rfl
  · rw [curvePosition, zPosition_map_ofNat hfits, coordinates, List.map_singleton, zPlace_singleton] at hposition
    rw [← Except.ok.inj hposition, Nat.mod_eq_of_lt (hfits _ (by simp [coordinates]))]
  · exact (Except.ok.inj hposition).symm

/-- Rows in the order of a curve are in the order of the column. -/
private theorem Placed.sortRows_along (h : Placed strategy [column] rows rank bits place)
    (hcurve : strategy = .zorder ∨ strategy = .hilbert) (hsort : sortRows rows .order [column] = .ok inOrder) :
    sortRows rows strategy [column] = .ok inOrder := by
  obtain ⟨inOrder', hsort', hsorted'⟩ := h.ranked.exists_sortRows (List.cons_ne_nil column [])
  obtain ⟨along, halong, hplaced⟩ := h.exists_sortRows hcurve (List.cons_ne_nil column [])
  obtain rfl : inOrder' = inOrder := Except.ok.inj (hsort'.symm.trans hsort)
  have hpoint : ∀ r s : Row, coordinates rank [column] s < coordinates rank [column] r ↔
      rank column (s.get column) < rank column (r.get column) := fun r s => by simp [coordinates, List.cons_lt_cons_iff]
  have hsorted : SortedBy (coordinates rank [column]) rows along := by
    refine hplaced.congr fun r hr s hs => ?_
    rw [h.place_single hcurve hr, h.place_single hcurve hs, Int.ofNat_le, ← not_lt, ← not_lt, hpoint]
  rw [halong, hsorted.unique hsorted']

/-- By one column whose values are ordered totally all strategies sort alike, but a curve needs values with ranks. -/
theorem sortRows_single (hordered : TotallyOrdered (rows.map (·.get column))) :
    ∃ inOrder, sortRows rows .order [column] = .ok inOrder ∧ inOrder.Perm rows ∧
      (Keyed [column] rows →
        sortRows rows .zorder [column] = .ok inOrder ∧ sortRows rows .hilbert [column] = .ok inOrder) ∧
      (¬ Keyed [column] rows → sortRows rows .zorder [column] = .error (.bare .badType) ∧
        sortRows rows .hilbert [column] = .error (.bare .badType)) := by
  have hcolumns : [column] ≠ [] := List.cons_ne_nil column []
  have hall : ∀ c ∈ [column], TotallyOrdered (rows.map (·.get c)) := List.forall_mem_singleton.2 hordered
  obtain ⟨rank, hranked⟩ := exists_ranked hall
  obtain ⟨inOrder, hsort, -⟩ := hranked.exists_sortRows hcolumns
  refine ⟨inOrder, hsort, sortRows_perm hsort, fun hkeyed => ?_, fun hnot => ?_⟩
  · have halong : ∀ strategy, strategy = .zorder ∨ strategy = .hilbert →
        sortRows rows strategy [column] = .ok inOrder := by
      intro strategy hcurve
      obtain ⟨rank, bits, place, hplaced⟩ := exists_placed hcurve hcolumns hall hkeyed
      exact hplaced.sortRows_along hcurve hsort
    exact ⟨halong .zorder (.inl rfl), halong .hilbert (.inr rfl)⟩
  · exact ⟨sortRows_eq_badType (.inl rfl) hcolumns hnot, sortRows_eq_badType (.inr rfl) hcolumns hnot⟩

/-- Lists are in order by their columns, but lie on no curve, not even on a line. -/
theorem sortRows_single_of_lists :
    let rows : List Row := [[("v", .list [.text "b"])], [("v", .list [.text "a"])]]
    TotallyOrdered (rows.map (·.get "v")) ∧
    sortRows rows .order ["v"] = .ok [[("v", .list [.text "a"])], [("v", .list [.text "b"])]] ∧
    sortRows rows .zorder ["v"] = .error (.bare .badType) ∧
    sortRows rows .hilbert ["v"] = .error (.bare .badType) := by
  intro rows
  have hordered : TotallyOrdered (rows.map (·.get "v")) := by decide
  obtain ⟨-, -, -, -, hnot⟩ := sortRows_single hordered
  exact ⟨hordered, rfl, hnot (by decide)⟩

/-- Nulls and missing values come first, and of equal rows the first stays ahead. -/
example : sortRows [[("v", .text "b"), ("w", .null)], [("v", .null)], [("v", .text "b")], [("w", .bool true)]]
      .hilbert ["v"] =
    .ok [[("v", .null)], [("w", .bool true)], [("v", .text "b"), ("w", .null)], [("v", .text "b")]] := by rfl

end Compaction.Order
