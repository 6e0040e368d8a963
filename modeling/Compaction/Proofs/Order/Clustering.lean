import Compaction.Proofs.Order.Placement
import Compaction.Proofs.Order.Rows
import Mathlib.Data.List.Lex

/-!
# Equal rows stand together

Where the values of each column are ordered totally, rows compare by the lists of their ranks (`Ranked.comparesBy`), and
along a curve by their places. So sorting by columns keeps equal rows together, in the order in which they stood, and
fails only for a curve through values that are no keys (`sortRows_clusters`).
-/

namespace Compaction.Order

variable {rows inOrder : List Row} {columns : List String} {strategy : Strategy} {rank : String → Value → Nat}
  {r s : Row}

/-! ### Rows in the order of their columns -/

/-- Whether a row is smaller than another one in the first of the columns in which they are not equal. -/
def SmallerIn (columns : List String) (r s : Row) : Prop :=
  ∃ front c back, columns = front ++ c :: back ∧ EqualIn front r s ∧
    (r.get c).relationNullsFirst (s.get c) = .before

theorem exists_ranked (h : ∀ c ∈ columns, TotallyOrdered (rows.map (·.get c))) : ∃ rank, Ranked rank columns rows :=
  ⟨fun c => rankIn Value.relationNullsFirst (rows.map (·.get c)), fun c hc => (h c hc).nullsFirst.comparesBy⟩

namespace Ranked

theorem of_cons {c : String} (h : Ranked rank (c :: columns) rows) : Ranked rank columns rows :=
  fun d hd => h d (List.mem_cons_of_mem c hd)

/-- Rows compare by the lists of their ranks. -/
theorem comparesBy (h : Ranked rank columns rows) :
    ComparesBy (relationRows columns) (coordinates rank columns) rows := by
  intro r hr s hs
  induction columns with
  | nil => exact .inr (.inl ⟨rfl, rfl⟩)
  | cons c rest ih =>
    have hrow : relationRows (c :: rest) r s =
        ((r.get c).relationNullsFirst (s.get c)).orElse (relationRows rest r s) := rfl
    have hpoint : ∀ r, coordinates rank (c :: rest) r = rank c (r.get c) :: coordinates rank rest r := fun _ => rfl
    rw [hrow, hpoint, hpoint, List.cons_lt_cons_iff, List.cons_lt_cons_iff, List.cons.injEq]
    rcases h.compares hr hs List.mem_cons_self with ⟨hrel, hlt⟩ | ⟨hrel, heq⟩ | ⟨hrel, hgt⟩
    · exact .inl ⟨by rw [hrel]; rfl, .inl hlt⟩
    · simpa [hrel, heq, Relation.orElse] using ih h.of_cons
    · exact .inr (.inr ⟨by rw [hrel]; rfl, .inl hgt⟩)

/-- The rows with the smaller lists of ranks are the smaller ones. -/
private theorem smallerIn (h : Ranked rank columns rows) (hr : r ∈ rows) (hs : s ∈ rows)
    (hlt : coordinates rank columns r < coordinates rank columns s) : SmallerIn columns r s := by
  induction columns with
  | nil => exact absurd hlt (lt_irrefl _)
  | cons c rest ih =>
    rcases List.cons_lt_cons_iff.1 hlt with hfirst | ⟨hfirst, hrest⟩
    · refine ⟨[], c, rest, rfl, by simp [EqualIn], ?_⟩
      rcases h.compares hr hs List.mem_cons_self with ⟨hrel, -⟩ | ⟨-, heq⟩ | ⟨-, hgt⟩
      · exact hrel
      · exact absurd heq hfirst.ne
      · exact absurd hgt hfirst.not_gt
    · obtain ⟨front, d, back, rfl, hfront, hd⟩ := ih h.of_cons hrest
      refine ⟨c :: front, d, back, rfl, List.forall_mem_cons.2 ⟨?_, hfront⟩, hd⟩
      exact (h.rank_eq_iff hr hs List.mem_cons_self).1 hfirst

end Ranked

/-- Rows in order by a strategy that compares them. -/
theorem Ranked.exists_sortRows (h : Ranked rank columns rows) (hcolumns : columns ≠ []) :
    ∃ inOrder, sortRows rows .order columns = .ok inOrder ∧ SortedBy (coordinates rank columns) rows inOrder := by
  obtain ⟨inOrder, hsome, hsorted⟩ := exists_sortBy?_sortedBy h.comparesBy
  refine ⟨inOrder, ?_, hsorted⟩
  rw [sortRows, if_neg (by simpa using hcolumns), hsome]

/-! ### Sorted rows -/

/-- Whether equal rows stand together in the order in which they stood. -/
def Clustered (columns : List String) (rows inOrder : List Row) : Prop :=
  ∀ r ∈ rows, ∃ before after, inOrder = before ++ rows.filter (EqualIn columns r) ++ after ∧
    ∀ s ∈ before ++ after, ¬ EqualIn columns r s

private theorem SortedBy.clustered {κ : Type} [LinearOrder κ] {f : Row → κ} (h : SortedBy f rows inOrder)
    (heq : ∀ r ∈ rows, ∀ s ∈ rows, f r = f s ↔ EqualIn columns r s) : Clustered columns rows inOrder := by
  intro r hr
  obtain ⟨before, after, hsplit, hother⟩ := h.contiguous (f r)
  have hfilter : rows.filter (fun s => f s = f r) = rows.filter (EqualIn columns r) :=
    List.filter_congr fun s hs => decide_eq_decide.2 (eq_comm.trans (heq r hr s hs))
  refine ⟨before, after, hfilter ▸ hsplit, fun s hs hequal => hother s hs ?_⟩
  have hmem : s ∈ inOrder := by
    rw [hsplit]
    rcases List.mem_append.1 hs with hs | hs <;> simp [hs]
  exact ((heq r hr s (h.mem_iff.1 hmem)).2 hequal).symm

theorem sortRows_clusters (hstrategy : strategy ≠ .none) (hcolumns : columns ≠ [])
    (hordered : ∀ c ∈ columns, TotallyOrdered (rows.map (·.get c))) :
    ((strategy = .order ∨ Keyed columns rows) →
      ∃ inOrder, sortRows rows strategy columns = .ok inOrder ∧ inOrder.Perm rows ∧ Clustered columns rows inOrder ∧
        (strategy = .order → inOrder.Pairwise fun r s => EqualIn columns r s ∨ SmallerIn columns r s) ∧
        (strategy ≠ .order → ∃ keys, curveKeys strategy columns rows = .ok keys ∧ keys.length = rows.length ∧
          ∀ x ∈ keys.zip rows, ∀ y ∈ keys.zip rows, x.1 = y.1 → EqualIn columns x.2 y.2)) ∧
    (¬ (strategy = .order ∨ Keyed columns rows) →
      sortRows rows strategy columns = .error (.bare .badType)) := by
  by_cases horder : strategy = .order
  · subst horder
    refine ⟨fun _ => ?_, fun hnot => absurd (.inl rfl) hnot⟩
    obtain ⟨rank, hranked⟩ := exists_ranked hordered
    obtain ⟨inOrder, hsort, hsorted⟩ := hranked.exists_sortRows hcolumns
    have hclustered := hsorted.clustered fun r hr s hs => hranked.coordinates_eq_iff hr hs
    refine ⟨inOrder, hsort, sortRows_perm hsort, hclustered, fun _ => ?_, fun hne => absurd rfl hne⟩
    refine hsorted.ordered.imp_of_mem fun hr hs hle => ?_
    rw [hsorted.mem_iff] at hr hs
    rcases hle.lt_or_eq with hlt | heq
    · exact .inr (hranked.smallerIn hr hs hlt)
    · exact .inl ((hranked.coordinates_eq_iff hr hs).1 heq)
  · have hcurve : strategy = .zorder ∨ strategy = .hilbert := by
      cases strategy <;> simp at horder hstrategy ⊢
    constructor
    · intro hkeyed
      obtain ⟨rank, bits, place, hplaced⟩ := exists_placed hcurve hcolumns hordered (hkeyed.resolve_left horder)
      obtain ⟨inOrder, hsort, hsorted⟩ := hplaced.exists_sortRows hcurve hcolumns
      have hequal : ∀ r ∈ rows, ∀ s ∈ rows, place r = place s ↔ EqualIn columns r s := fun r hr s hs =>
        hplaced.place_eq_iff hcurve hcolumns hr hs
      refine ⟨inOrder, hsort, sortRows_perm hsort, hsorted.clustered hequal, fun h => absurd h horder, fun _ => ?_⟩
      refine ⟨rows.map place, hplaced.keys, List.length_map _, ?_⟩
      rw [zip_map_self]
      exact List.forall_mem_map.2 fun r hr => List.forall_mem_map.2 fun s hs => (hequal r hr s hs).1
    · intro hnot
      exact sortRows_eq_badType hcurve hcolumns fun hkeyed => hnot (.inr hkeyed)

/-- Lists can be put in order, but not along a curve. -/
theorem sortRows_clusters_of_lists :
    TotallyOrdered ([[("v", .list [.text "b"])], [("v", .list [.text "a"])]].map fun r : Row => r.get "v") ∧
    sortRows [[("v", .list [.text "b"])], [("v", .list [.text "a"])]] .order ["v"] =
      .ok [[("v", .list [.text "a"])], [("v", .list [.text "b"])]] ∧
    sortRows [[("v", .list [.text "b"])], [("v", .list [.text "a"])]] .zorder ["v"] = .error (.bare .badType) := by
  have hordered : ∀ c ∈ ["v"],
      TotallyOrdered ([[("v", .list [.text "b"])], [("v", .list [.text "a"])]].map fun r : Row => r.get c) := by decide
  refine ⟨hordered "v" (by decide), rfl, ?_⟩
  exact (sortRows_clusters (by decide) (by decide) hordered).2 (by decide)

/-- A missing value is null, and of equal rows the first stays ahead. -/
example : sortRows [[("v", .text "b"), ("w", .null)], [("w", .text "a")], [("v", .text "b")]] .hilbert ["v", "w"] =
    .ok [[("w", .text "a")], [("v", .text "b"), ("w", .null)], [("v", .text "b")]] := by rfl

end Compaction.Order
