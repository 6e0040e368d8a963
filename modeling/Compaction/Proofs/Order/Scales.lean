import Compaction.Proofs.Order.Clustering
import Compaction.Proofs.Order.Dense

/-!
# Rows on other scales

Strictly increasing maps of the values of the columns (`Increasing`, `Row.rescaled`) change neither how rows compare
(`relationRows_rescaled`) nor their places on a curve (`curveKeys_rescaled`), so they leave the order of the rows as it
is (`sortRows_rescaled_iff`).
-/

namespace Compaction

/-- The image of a value under a map that leaves nulls alone. -/
def Value.rescaled (m : Value → Value) (v : Value) : Value := if v.isNull then v else m v

/-- The row with the values of some columns under a map for each column. -/
def Row.rescaled (m : String → Value → Value) (columns : List String) (r : Row) : Row :=
  r.map fun e => (e.1, if e.1 ∈ columns then e.2.rescaled (m e.1) else e.2)

namespace Order

variable {values : List Value} {m : Value → Value} {v w : Value}

/-- Whether a map is strictly increasing on the values of a column: it takes no value to null, and two values stand to
each other as their images do. -/
def Increasing (m : Value → Value) (values : List Value) : Prop :=
  ∀ v ∈ values, ¬ v.isNull → ¬ (m v).isNull ∧ ∀ w ∈ values, ¬ w.isNull → (m v).relation (m w) = v.relation w

instance : Decidable (Increasing m values) :=
  inferInstanceAs (Decidable (∀ v ∈ values, ¬ v.isNull → _ ∧ ∀ w ∈ values, ¬ w.isNull → _))

namespace Increasing

private theorem isNull_rescaled (h : Increasing m values) (hv : v ∈ values) : (v.rescaled m).isNull = v.isNull := by
  unfold Value.rescaled
  split
  · rfl
  · next hnull => simpa [hnull] using (h v hv hnull).1

private theorem relation_rescaled (h : Increasing m values) (hv : v ∈ values) (hw : w ∈ values) (hvn : ¬ v.isNull)
    (hwn : ¬ w.isNull) : (v.rescaled m).relation (w.rescaled m) = v.relation w := by
  rw [Value.rescaled, Value.rescaled, if_neg hvn, if_neg hwn]
  exact (h v hv hvn).2 w hw hwn

private theorem relationNullsFirst_rescaled (h : Increasing m values) (hv : v ∈ values) (hw : w ∈ values) :
    (v.rescaled m).relationNullsFirst (w.rescaled m) = v.relationNullsFirst w := by
  have hvm := h.isNull_rescaled hv
  have hwm := h.isNull_rescaled hw
  by_cases hvn : v.isNull
  · rw [relationNullsFirst_null hvn, relationNullsFirst_null (hvm.trans hvn), hwm]
  · by_cases hwn : w.isNull
    · rw [relationNullsFirst_not_null hvn hwn, relationNullsFirst_not_null (by rwa [hvm]) (hwm.trans hwn)]
    · rw [relationNullsFirst_of_not_null hvn hwn, relationNullsFirst_of_not_null (by rwa [hvm]) (by rwa [hwm]),
        h.relation_rescaled hv hw hvn hwn]

private theorem totallyOrdered (h : Increasing m values) (hordered : TotallyOrdered values) :
    TotallyOrdered (values.map (Value.rescaled m)) := by
  have hfilter : (values.map (Value.rescaled m)).filter (!·.isNull) =
      (values.filter (!·.isNull)).map (Value.rescaled m) := by
    rw [List.filter_map]
    exact congrArg _ (List.filter_congr fun v hv => congrArg (!·) (h.isNull_rescaled hv))
  rw [TotallyOrdered, hfilter]
  refine Orders.map hordered fun v hv w hw => ?_
  obtain ⟨hv, hvn⟩ := List.mem_filter.1 hv
  obtain ⟨hw, hwn⟩ := List.mem_filter.1 hw
  exact h.relation_rescaled hv hw (by simpa using hvn) (by simpa using hwn)

end Increasing

variable {rows inOrder : List Row} {columns : List String} {strategy : Strategy} {m : String → Value → Value}
  {c : String} {r s : Row}

/-! ### Rows -/

private theorem get_rescaled (hc : c ∈ columns) (r : Row) :
    (r.rescaled m columns).get c = (r.get c).rescaled (m c) := by
  have hlookup : (r.rescaled m columns).get? c = (r.get? c).map (Value.rescaled (m c)) := by
    induction r with
    | nil => rfl
    | cons e rest ih =>
      obtain ⟨name, v⟩ := e
      by_cases hname : c = name
      · subst hname
        simp [Row.rescaled, Row.get?, hc]
      · have hother : (c == name) = false := by simpa using hname
        simpa [Row.rescaled, Row.get?, List.lookup_cons, hother] using ih
  rw [Row.get, Row.get, hlookup]
  cases r.get? c <;> rfl

private theorem column_rescaled (hc : c ∈ columns) (rows : List Row) :
    (rows.map (Row.rescaled m columns)).map (·.get c) = (rows.map (·.get c)).map (Value.rescaled (m c)) := by
  rw [List.map_map, List.map_map]
  exact List.map_congr_left fun r _ => get_rescaled hc r

theorem relationRows_rescaled (hm : ∀ c ∈ columns, Increasing (m c) (rows.map (·.get c))) (hr : r ∈ rows)
    (hs : s ∈ rows) :
    relationRows columns (r.rescaled m columns) (s.rescaled m columns) = relationRows columns r s := by
  suffices ∀ front ⊆ columns,
      relationRows front (r.rescaled m columns) (s.rescaled m columns) = relationRows front r s from
    this columns (by simp)
  intro front hfront
  induction front with
  | nil => rfl
  | cons c rest ih =>
    have hc : c ∈ columns := hfront List.mem_cons_self
    have hstep : ∀ r s : Row, relationRows (c :: rest) r s =
        ((r.get c).relationNullsFirst (s.get c)).orElse (relationRows rest r s) := fun _ _ => rfl
    rw [hstep, hstep, ih fun d hd => hfront (List.mem_cons_of_mem c hd), get_rescaled hc, get_rescaled hc,
      (hm c hc).relationNullsFirst_rescaled (List.mem_map_of_mem hr) (List.mem_map_of_mem hs)]

private theorem totallyOrdered_rescaled (hordered : ∀ c ∈ columns, TotallyOrdered (rows.map (·.get c)))
    (hm : ∀ c ∈ columns, Increasing (m c) (rows.map (·.get c))) :
    ∀ c ∈ columns, TotallyOrdered ((rows.map (Row.rescaled m columns)).map (·.get c)) := by
  intro c hc
  rw [column_rescaled hc]
  exact (hm c hc).totallyOrdered (hordered c hc)

/-! ### Sorted rows -/

/-- Rows that compare alike are in the same order by their columns. -/
private theorem exists_sortRows_order (hordered : ∀ c ∈ columns, TotallyOrdered (rows.map (·.get c)))
    (hm : ∀ c ∈ columns, Increasing (m c) (rows.map (·.get c))) (hcolumns : columns ≠ []) :
    ∃ inOrder, sortRows rows .order columns = .ok inOrder ∧
      sortRows (rows.map (Row.rescaled m columns)) .order columns = .ok (inOrder.map (Row.rescaled m columns)) := by
  obtain ⟨rank, hranked⟩ := exists_ranked hordered
  obtain ⟨rank', hranked'⟩ := exists_ranked (totallyOrdered_rescaled hordered hm)
  obtain ⟨inOrder, hsort, hsorted⟩ := hranked.exists_sortRows hcolumns
  obtain ⟨inOrder', hsort', hsorted'⟩ := hranked'.exists_sortRows hcolumns
  have halike : SortedBy (coordinates rank' columns ∘ Row.rescaled m columns) rows inOrder := by
    refine hsorted.congr fun r hr s hs => ?_
    rw [← not_lt, ← not_lt, ← hranked.comparesBy.before_iff hs hr, ← relationRows_rescaled hm hs hr,
      hranked'.comparesBy.before_iff (List.mem_map_of_mem hs) (List.mem_map_of_mem hr)]
    rfl
  exact ⟨inOrder, hsort, by rw [hsort', hsorted'.unique halike.map]⟩

/-- Rows that compare alike have the same places on a curve. -/
theorem curveKeys_rescaled (hordered : ∀ c ∈ columns, TotallyOrdered (rows.map (·.get c)))
    (hm : ∀ c ∈ columns, Increasing (m c) (rows.map (·.get c))) (hkeyed : Keyed columns rows)
    (hkeyed' : Keyed columns (rows.map (Row.rescaled m columns))) :
    curveKeys strategy columns (rows.map (Row.rescaled m columns)) = curveKeys strategy columns rows := by
  have hranks : ∀ c ∈ columns, ranks ((rows.map (Row.rescaled m columns)).map (·.get c)) =
      ranks (rows.map (·.get c)) := by
    intro c hc
    have hordered' := totallyOrdered_rescaled hordered hm c hc
    have hkeys' : ∀ v ∈ (rows.map (Row.rescaled m columns)).map (·.get c), v.key?.isSome :=
      List.forall_mem_map.2 (hkeyed' c hc)
    rw [column_rescaled hc] at hordered' hkeys' ⊢
    exact ranks_map (hordered c hc) hordered' (List.forall_mem_map.2 (hkeyed c hc)) hkeys'
      fun v hv w hw => (hm c hc).relationNullsFirst_rescaled hv hw
  rw [curveKeys, curveKeys, Except.mapM_congr hranks, List.length_map]

private theorem sortByCurve_map {g : Row → Row}
    (h : curveKeys strategy columns (rows.map g) = curveKeys strategy columns rows) :
    sortByCurve strategy columns (rows.map g) = (sortByCurve strategy columns rows).map (List.map g) := by
  rw [sortByCurve_eq, sortByCurve_eq, h]
  cases curveKeys strategy columns rows with
  | error fault => rfl
  | ok keys =>
    show Except.ok _ = Except.ok _
    rw [List.zip_map_right, sorted_map, List.map_map, List.map_map]
    rfl

/-- Rows that have the same places are in the same order along a curve. -/
private theorem exists_sortRows_curve (hordered : ∀ c ∈ columns, TotallyOrdered (rows.map (·.get c)))
    (hm : ∀ c ∈ columns, Increasing (m c) (rows.map (·.get c))) (hcolumns : columns ≠ [])
    (hcurve : strategy = .zorder ∨ strategy = .hilbert) (hkeyed : Keyed columns rows)
    (hkeyed' : Keyed columns (rows.map (Row.rescaled m columns))) :
    ∃ inOrder, sortRows rows strategy columns = .ok inOrder ∧
      sortRows (rows.map (Row.rescaled m columns)) strategy columns = .ok (inOrder.map (Row.rescaled m columns)) := by
  obtain ⟨rank, bits, place, hplaced⟩ := exists_placed hcurve hcolumns hordered hkeyed
  obtain ⟨inOrder, hsort, -⟩ := hplaced.exists_sortRows hcurve hcolumns
  refine ⟨inOrder, hsort, ?_⟩
  rw [sortRows_eq_sortByCurve hcurve hcolumns] at hsort ⊢
  rw [sortByCurve_map (curveKeys_rescaled hordered hm hkeyed hkeyed'), hsort]
  rfl

/-- The elements at some places, in the order of the places. -/
def pick {α : Type} (xs : List α) (places : List Nat) : List α := places.filterMap (xs[·]?)

private theorem pick_map {α β : Type} (g : α → β) (xs : List α) (places : List Nat) :
    pick (xs.map g) places = (pick xs places).map g := by
  simp [pick, List.map_filterMap]

/-- Whatever is in another order stands at some places. -/
private theorem exists_pick {α : Type} {xs ys : List α} (h : ys.Perm xs) :
    ∃ places, places.Perm (List.range xs.length) ∧ ys = pick xs places := by
  have hplaces : List.Forall₂ (fun x i => xs[i]? = some x) xs (List.range xs.length) := by
    rw [List.forall₂_iff_get]
    refine ⟨List.length_range.symm, fun i hi _ => ?_⟩
    simp [hi]
  obtain ⟨places, hys, hperm⟩ := List.perm_comp_forall₂ h hplaces
  refine ⟨places, hperm, ?_⟩
  clear h hperm hplaces
  induction hys with
  | nil => rfl
  | cons hx _ ih => rw [pick, List.filterMap_cons_some hx, ← pick, ← ih]

/-- One order of the rows sorts them on both scales, unless the values on one of them have no ranks and a curve needs
ranks. -/
theorem sortRows_rescaled_iff (hordered : ∀ c ∈ columns, TotallyOrdered (rows.map (·.get c)))
    (hm : ∀ c ∈ columns, Increasing (m c) (rows.map (·.get c))) :
    (∃ places : List Nat, places.Perm (List.range rows.length) ∧
      sortRows rows strategy columns = .ok (pick rows places) ∧
      sortRows (rows.map (Row.rescaled m columns)) strategy columns =
        .ok (pick (rows.map (Row.rescaled m columns)) places)) ↔
    strategy = .none ∨ columns ≠ [] ∧
      (strategy = .order ∨ Keyed columns rows ∧ Keyed columns (rows.map (Row.rescaled m columns))) := by
  have hcases : strategy = .none ∨ strategy = .order ∨ strategy = .zorder ∨ strategy = .hilbert := by
    cases strategy <;> simp
  constructor
  · rintro ⟨places, -, hsort, hsort'⟩
    refine hcases.imp_right fun hstrategy => ?_
    have hcolumns : columns ≠ [] := by
      rintro rfl
      rcases hstrategy with rfl | rfl | rfl <;> cases hsort
    refine ⟨hcolumns, hstrategy.imp_right fun hcurve => ?_⟩
    constructor
    · by_contra hnot
      rw [sortRows_eq_badType hcurve hcolumns hnot] at hsort
      cases hsort
    · by_contra hnot
      rw [sortRows_eq_badType hcurve hcolumns hnot] at hsort'
      cases hsort'
  · intro hsortable
    have hsorts : ∃ inOrder, sortRows rows strategy columns = .ok inOrder ∧
        sortRows (rows.map (Row.rescaled m columns)) strategy columns = .ok (inOrder.map (Row.rescaled m columns)) := by
      rcases hsortable with rfl | ⟨hcolumns, hsortable⟩
      · exact ⟨rows, rfl, rfl⟩
      · rcases hcases with rfl | rfl | hcurve
        · exact ⟨rows, rfl, rfl⟩
        · exact exists_sortRows_order hordered hm hcolumns
        · have hnot : strategy ≠ .order := by rcases hcurve with rfl | rfl <;> simp
          obtain ⟨hkeyed, hkeyed'⟩ := hsortable.resolve_left hnot
          exact exists_sortRows_curve hordered hm hcolumns hcurve hkeyed hkeyed'
    obtain ⟨inOrder, hsort, hsort'⟩ := hsorts
    obtain ⟨places, hperm, rfl⟩ := exists_pick (sortRows_perm hsort)
    exact ⟨places, hperm, hsort, by rw [hsort', pick_map]⟩

/-- Texts in lists compare as the texts do, so both are in the same order, but only the texts lie on a curve. -/
theorem sortRows_rescaled_of_lists :
    let rows : List Row := [[("v", .text "b")], [("v", .text "a")], [("w", .null)]]
    let m : String → Value → Value := fun _ v => .list [v]
    let lists := rows.map (Row.rescaled m ["v"])
    TotallyOrdered (rows.map (·.get "v")) ∧ Increasing (m "v") (rows.map (·.get "v")) ∧
    (∃ places : List Nat, places.Perm (List.range 3) ∧ sortRows rows .order ["v"] = .ok (pick rows places) ∧
      sortRows lists .order ["v"] = .ok (pick lists places)) ∧
    sortRows rows .zorder ["v"] = .ok (pick rows [2, 1, 0]) ∧
    ¬ ∃ places : List Nat, places.Perm (List.range 3) ∧ sortRows rows .zorder ["v"] = .ok (pick rows places) ∧
      sortRows lists .zorder ["v"] = .ok (pick lists places) := by
  intro rows m lists
  have hordered : ∀ c ∈ ["v"], TotallyOrdered (rows.map (·.get c)) := by decide
  have hm : ∀ c ∈ ["v"], Increasing (m c) (rows.map (·.get c)) := by decide
  have hnot : ¬ (Keyed ["v"] rows ∧ Keyed ["v"] lists) := by decide
  refine ⟨hordered "v" (by simp), hm "v" (by simp), ?_, rfl, fun hplaces => ?_⟩
  · exact (sortRows_rescaled_iff hordered hm).2 (.inr ⟨by simp, .inl rfl⟩)
  · exact hnot (by simpa using (sortRows_rescaled_iff hordered hm).1 hplaces)

end Order

end Compaction
