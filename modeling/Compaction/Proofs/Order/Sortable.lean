import Compaction.Order.Rows
import Compaction.Proofs.Effect
import Compaction.Proofs.Filter.Match

/-!
# Rows that can be sorted

Sorting by a relation succeeds if no two elements refuse to be compared (`exists_sortBy?`), and along a curve every
point has a place (`exists_curvePosition`). So sorting rows never fails but for want of columns, or for columns whose
values do not compare or, along a curve, cannot be ranked (`Sortable`, `sortRows_eq_error`).
-/

namespace Compaction.Order

variable {α : Type} {rel : α → α → Relation} {x y : α} {xs ys : List α} {rows : List Row} {columns : List String}
  {strategy : Strategy} {f : Fault}

private theorem exists_isBefore? (h : rel x y ≠ .refused) : ∃ b, isBefore? rel x y = some b := by
  unfold isBefore?
  split
  · next hrefused => exact absurd hrefused h
  · exact ⟨_, rfl⟩

private theorem exists_takeRun? {follows : α → α → Option Bool} {ahead : α}
    (h : ∀ x ∈ ahead :: xs, ∀ y ∈ ahead :: xs, ∃ b, follows x y = some b) :
    ∃ run, takeRun? follows ahead xs = some run := by
  induction xs generalizing ahead with
  | nil => exact ⟨_, rfl⟩
  | cons x rest ih =>
    obtain ⟨b, hb⟩ := h ahead (by simp) x (by simp)
    obtain ⟨run, hrun⟩ := ih fun y hy z hz => h y (List.mem_cons_of_mem _ hy) z (List.mem_cons_of_mem _ hz)
    rw [takeRun?, hb, hrun]
    cases b <;> exact ⟨_, rfl⟩

private theorem exists_leadingRun? (h : ∀ x ∈ xs, ∀ y ∈ xs, rel x y ≠ .refused) :
    ∃ run, leadingRun? rel xs = some run := by
  match xs, h with
  | [], _ => exact ⟨_, rfl⟩
  | [_], _ => exact ⟨_, rfl⟩
  | x :: y :: rest, h =>
    have hbefore : ∀ z ∈ y :: rest, ∀ z' ∈ y :: rest, ∃ b, isBefore? rel z' z = some b := fun z hz z' hz' =>
      exists_isBefore? (h z' (List.mem_cons_of_mem _ hz') z (List.mem_cons_of_mem _ hz))
    obtain ⟨b, hb⟩ := exists_isBefore? (h y (by simp) x (by simp))
    rw [leadingRun?, hb]
    cases b with
    | true =>
      obtain ⟨run, hrun⟩ : ∃ run, takeRun? (fun ahead z => isBefore? rel z ahead) y rest = some run :=
        exists_takeRun? hbefore
      simp only [Option.bind_eq_bind, Option.bind_some, if_true, hrun]
      exact ⟨_, rfl⟩
    | false =>
      have hnot : ∀ z ∈ y :: rest, ∀ z' ∈ y :: rest, ∃ b, (isBefore? rel z' z).map (!·) = some b := by
        intro z hz z' hz'
        obtain ⟨b, hb⟩ := hbefore z hz z' hz'
        exact ⟨!b, by rw [hb]; rfl⟩
      obtain ⟨run, hrun⟩ : ∃ run, takeRun? (fun ahead z => (isBefore? rel z ahead).map (!·)) y rest = some run :=
        exists_takeRun? hnot
      simp only [Option.bind_eq_bind, Option.bind_some, Bool.false_eq_true, if_false, hrun]
      exact ⟨_, rfl⟩

private theorem exists_insertHalving? (h : ∀ y ∈ ys, rel x y ≠ .refused) : ∃ zs, insertHalving? rel x ys = some zs := by
  fun_induction insertHalving? rel x ys with
  | case1 ys hd => exact ⟨_, rfl⟩
  | case2 ys y right hd ihl ihr =>
    have hright : ∀ z ∈ y :: right, z ∈ ys := fun z hz => List.mem_of_mem_drop (hd ▸ hz)
    obtain ⟨b, hb⟩ := exists_isBefore? (h y (hright y (by simp)))
    obtain ⟨left', hleft⟩ := ihl fun z hz => h z (List.mem_of_mem_take hz)
    obtain ⟨right', hright'⟩ := ihr fun z hz => h z (hright z (List.mem_cons_of_mem _ hz))
    rw [hb, hleft, hright']
    cases b <;> exact ⟨_, rfl⟩

private theorem exists_foldlM_insertHalving? (h : ∀ x ∈ xs, ∀ y ∈ ys ++ xs, rel x y ≠ .refused) :
    ∃ zs, xs.foldlM (fun ys x => insertHalving? rel x ys) ys = some zs := by
  induction xs generalizing ys with
  | nil => exact ⟨ys, rfl⟩
  | cons x rest ih =>
    obtain ⟨ws, hws⟩ := exists_insertHalving? fun y hy => h x (by simp) y (List.mem_append_left _ hy)
    have hrest : ∀ z ∈ rest, ∀ y ∈ ws ++ rest, rel z y ≠ .refused := by
      intro z hz y hy
      refine h z (List.mem_cons_of_mem _ hz) y ?_
      have hperm := ((insertHalving?_perm hws).append_right rest).trans List.perm_middle.symm
      exact hperm.subset hy
    obtain ⟨zs, hzs⟩ := ih hrest
    exact ⟨zs, by rw [List.foldlM_cons, hws]; exact hzs⟩

/-- Elements that all compare can be sorted. -/
theorem exists_sortBy? (h : ∀ x ∈ xs, ∀ y ∈ xs, rel x y ≠ .refused) : ∃ ys, sortBy? rel xs = some ys := by
  obtain ⟨⟨run, rest⟩, hrun⟩ := exists_leadingRun? h
  have hperm := leadingRun?_perm hrun
  have hrest : ∀ x ∈ rest, ∀ y ∈ run ++ rest, rel x y ≠ .refused := fun x hx y hy =>
    h x (hperm.subset (List.mem_append_right _ hx)) y (hperm.subset hy)
  obtain ⟨ys, hys⟩ := exists_foldlM_insertHalving? hrest
  exact ⟨ys, by rw [sortBy?, hrun]; exact hys⟩

/-! ### Ranks -/

/-- Whether a column can be ranked: its values are keys that all compare. -/
def Rankable (values : List Value) : Prop :=
  ∃ keys, values.mapM Value.key? = some keys ∧ ∀ k ∈ keys, ∀ l ∈ keys, keysNullFirst k l ≠ .refused

theorem ranks_eq_error {values : List Value} (h : ranks values = .error f) :
    f = .bare .badType ∧ ¬ Rankable values := by
  unfold ranks at h
  split at h
  · cases h
  · next hnone =>
    cases h
    refine ⟨rfl, ?_⟩
    rintro ⟨keys, hkeys, hcompare⟩
    obtain ⟨order, horder⟩ : ∃ order, sortBy? keysNullFirst (distinctBy id keys) = some order :=
      exists_sortBy? fun k hk l hl =>
        hcompare k (Filter.mem_distinctBy_id.1 hk) l (Filter.mem_distinctBy_id.1 hl)
    rw [hkeys, Option.bind_some, ranksOfKeys, distinctSorted?, horder] at hnone
    cases hnone

/-! ### Curves -/

/-- Every point of a space has a place on a curve through it. -/
theorem exists_curvePosition (hcurve : strategy = .zorder ∨ strategy = .hilbert) {point : List Int}
    (hpoint : point ≠ []) {bits : Int} (hbits : 0 < bits) : ∃ place, curvePosition strategy point bits = .ok place := by
  rcases hcurve with rfl | rfl
  · exact ⟨_, rfl⟩
  · match point, hpoint with
    | [c], _ => exact ⟨_, rfl⟩
    | c :: d :: rest, _ =>
      rw [curvePosition, hilbertPosition, if_neg (Int.not_le.2 hbits), if_neg (by simp)]
      · exact ⟨_, rfl⟩
      · simp

/-- A point has as many coordinates as there are columns. -/
private theorem length_of_mem_points {columnRanks : List (List Nat)} {n : Nat} {point : List Int}
    (h : point ∈ points columnRanks n) : point.length = columnRanks.length := by
  obtain ⟨i, -, rfl⟩ := List.mem_map.1 h
  exact List.length_map _

theorem sortByCurve_eq_error (hcurve : strategy = .zorder ∨ strategy = .hilbert) (hcolumns : columns ≠ [])
    (h : sortByCurve strategy columns rows = .error f) : ∃ c ∈ columns, ranks (rows.map (·.get c)) = .error f := by
  rcases Except.bind_eq_error.1 h with hranks | ⟨columnRanks, hranks, h⟩
  · obtain ⟨before, c, after, rfl, -, hc⟩ := Except.mapM_eq_error.1 hranks
    exact ⟨c, by simp, hc⟩
  · -- all points have a place
    rcases Except.bind_eq_error.1 h with hplaces | ⟨places, -, h⟩
    · obtain ⟨before, point, after, hpoints, -, hpoint⟩ := Except.mapM_eq_error.1 hplaces
      have hmem : point ∈ points columnRanks rows.length := hpoints ▸ by simp
      have hnonempty : point ≠ [] := by
        rintro rfl
        have hlength := (length_of_mem_points hmem).trans (Except.length_of_mapM_eq_ok hranks)
        exact hcolumns (List.length_eq_zero_iff.1 hlength.symm)
      have hbits : (0 : Int) < bitsFor (largest columnRanks) := by exact_mod_cast bitsFor_pos _
      obtain ⟨place, hplace⟩ := exists_curvePosition hcurve hnonempty hbits
      rw [hplace] at hpoint
      cases hpoint
    · cases h

/-! ### Rows -/

/-- Whether rows can be sorted by columns, given that there are some. -/
def Sortable (strategy : Strategy) (columns : List String) (rows : List Row) : Prop :=
  match strategy with
  | .none => True
  | .order => ∀ r ∈ rows, ∀ r' ∈ rows, relationRows columns r r' ≠ .refused
  | .zorder | .hilbert => ∀ c ∈ columns, Rankable (rows.map (·.get c))

theorem sortRows_eq_error (h : sortRows rows strategy columns = .error f) :
    f = .sortNeedsColumns strategy ∨ f = .bare .badType ∧ ¬ Sortable strategy columns rows := by
  have hcurve : strategy = .zorder ∨ strategy = .hilbert →
      (if columns.isEmpty then .error (.sortNeedsColumns strategy) else sortByCurve strategy columns rows) = .error f →
        f = .sortNeedsColumns strategy ∨ f = .bare .badType ∧ ¬ ∀ c ∈ columns, Rankable (rows.map (·.get c)) := by
    intro hcurve h
    split at h
    · cases h
      exact .inl rfl
    · next hcolumns =>
      obtain ⟨c, hc, hranks⟩ := sortByCurve_eq_error hcurve (by simpa using hcolumns) h
      obtain ⟨rfl, hnot⟩ := ranks_eq_error hranks
      exact .inr ⟨rfl, fun hall => hnot (hall c hc)⟩
  cases strategy with
  | none => cases h
  | order =>
    rw [sortRows] at h
    split at h
    · cases h
      exact .inl rfl
    · split at h
      · cases h
      · next hnone =>
        cases h
        refine .inr ⟨rfl, fun hcompare => ?_⟩
        obtain ⟨inOrder, hsome⟩ := exists_sortBy? hcompare
        rw [hsome] at hnone
        cases hnone
  | zorder => exact hcurve (.inl rfl) h
  | hilbert => exact hcurve (.inr rfl) h

end Compaction.Order
