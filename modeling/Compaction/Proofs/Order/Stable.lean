import Compaction.Proofs.Order.Sortable
import Mathlib.Data.List.Basic
import Mathlib.Order.Compare

/-!
# Stable sorting

A list is sorted by a key if keys do not fall along it and the elements of each key stand as they stood before
(`SortedBy`). Insertion from the right sorts so (`sortedBy_sorted`), and so does sorting by a relation that compares the
elements by the key (`exists_sortBy?_sortedBy`): the leading run is in order, and halving puts each further element
behind all that have the same key. In a sorted list the elements of one key are contiguous (`SortedBy.contiguous`), and
there is only one for each key (`SortedBy.unique`).
-/

namespace Compaction.Order

variable {α κ : Type} [LinearOrder κ] {rel : α → α → Relation} {f : α → κ} {x y : α} {xs ys zs left right : List α}

/-- Whether a list is another one in the order of a key, with the elements of each key as they stood. -/
structure SortedBy (f : α → κ) (xs ys : List α) : Prop where
  ordered : ys.Pairwise fun x y => f x ≤ f y
  kept : ∀ k, ys.filter (fun x => f x = k) = xs.filter (fun x => f x = k)

namespace SortedBy

theorem mem_iff (h : SortedBy f xs ys) : x ∈ ys ↔ x ∈ xs := by
  have hkept := congrArg (x ∈ ·) (h.kept (f x))
  simpa using hkept

theorem trans (h : SortedBy f ys zs) (hkept : ∀ k, ys.filter (fun x => f x = k) = xs.filter (fun x => f x = k)) :
    SortedBy f xs zs :=
  ⟨h.ordered, fun k => (h.kept k).trans (hkept k)⟩

/-- Before the elements of a key stand those of lower keys, and after them those of higher ones. -/
theorem contiguous (h : SortedBy f xs ys) (k : κ) :
    ∃ before after, ys = before ++ xs.filter (fun x => f x = k) ++ after ∧ ∀ x ∈ before ++ after, f x ≠ k := by
  refine ⟨ys.filter (fun x => f x < k), ys.filter (fun x => k < f x), ?_, ?_⟩
  · rw [← h.kept k]
    have hordered := h.ordered
    clear h
    induction ys with
    | nil => rfl
    | cons y rest ih =>
      obtain ⟨hy, hrest⟩ := List.pairwise_cons.1 hordered
      have hrest := ih hrest
      rcases lt_trichotomy (f y) k with hlt | heq | hgt
      · simpa [hlt, hlt.ne, hlt.not_gt] using hrest
      · -- nothing after the first element of the key has a lower one
        have hlow : rest.filter (fun x => f x < k) = [] := by
          rw [List.filter_eq_nil_iff]
          intro z hz
          simpa using heq ▸ hy z hz
        rw [hlow] at hrest
        simpa [heq, hlow] using hrest
      · have hlow : rest.filter (fun x => f x < k) = [] := by
          rw [List.filter_eq_nil_iff]
          intro z hz
          simpa using hgt.le.trans (hy z hz)
        have hsame : rest.filter (fun x => f x = k) = [] := by
          rw [List.filter_eq_nil_iff]
          intro z hz
          simpa using (hgt.trans_le (hy z hz)).ne'
        rw [hlow, hsame] at hrest
        simpa [hgt, hgt.ne', hgt.not_gt, hlow, hsame] using hrest
  · intro x hx
    rcases List.mem_append.1 hx with hx | hx
    · exact (of_decide_eq_true (List.mem_filter.1 hx).2).ne
    · exact (of_decide_eq_true (List.mem_filter.1 hx).2).ne'

/-- There is only one such order. -/
theorem unique (h : SortedBy f xs ys) (h' : SortedBy f xs zs) : ys = zs := by
  have hkept : ∀ k, ys.filter (fun x => f x = k) = zs.filter (fun x => f x = k) := fun k =>
    (h.kept k).trans (h'.kept k).symm
  have hys := h.ordered
  have hzs := h'.ordered
  clear h h'
  induction ys generalizing zs with
  | nil =>
    cases zs with
    | nil => rfl
    | cons z zs => simpa using hkept (f z)
  | cons y ys ih =>
    have hhead : y ∈ zs.filter fun x => f x = f y := by
      rw [← hkept]
      simp
    cases zs with
    | nil => simp at hhead
    | cons z zs =>
      have hother : z ∈ (y :: ys).filter fun x => f x = f z := by
        rw [hkept]
        simp
      -- both heads have the lowest key, so each of them is the first element of that key
      have hle : f z ≤ f y := by
        rcases List.mem_cons.1 (List.mem_filter.1 hhead).1 with rfl | hy
        · exact le_rfl
        · exact List.rel_of_pairwise_cons hzs hy
      have hge : f y ≤ f z := by
        rcases List.mem_cons.1 (List.mem_filter.1 hother).1 with rfl | hz
        · exact le_rfl
        · exact List.rel_of_pairwise_cons hys hz
      have hfirst := hkept (f y)
      simp [le_antisymm hle hge] at hfirst
      obtain ⟨rfl, -⟩ := hfirst
      rw [ih (fun k => ?_) hys.of_cons hzs.of_cons]
      have hk := hkept k
      by_cases hyk : f y = k
      · simpa [hyk] using hk
      · simpa [hyk] using hk

/-- Keys that order the elements alike sort them alike. -/
theorem congr {κ' : Type} [LinearOrder κ'] {g : α → κ'} (h : SortedBy f xs ys)
    (hfg : ∀ x ∈ xs, ∀ y ∈ xs, f x ≤ f y ↔ g x ≤ g y) : SortedBy g xs ys := by
  refine ⟨h.ordered.imp_of_mem fun hx hy hle => (hfg _ (h.mem_iff.1 hx) _ (h.mem_iff.1 hy)).1 hle, fun k => ?_⟩
  by_cases hk : ∃ x ∈ xs, g x = k
  · obtain ⟨x, hx, rfl⟩ := hk
    have hsame : ∀ y ∈ xs, g y = g x ↔ f y = f x := by
      intro y hy
      rw [le_antisymm_iff, le_antisymm_iff, hfg y hy x hx, hfg x hx y hy]
    have hys : ys.filter (fun y => g y = g x) = ys.filter (fun y => f y = f x) :=
      List.filter_congr fun y hy => decide_eq_decide.2 (hsame y (h.mem_iff.1 hy))
    have hxs : xs.filter (fun y => g y = g x) = xs.filter (fun y => f y = f x) :=
      List.filter_congr fun y hy => decide_eq_decide.2 (hsame y hy)
    rw [hys, hxs, h.kept]
  · have hnone : ∀ y ∈ xs, ¬ g y = k := fun y hy hyk => hk ⟨y, hy, hyk⟩
    have hys : ys.filter (fun y => g y = k) = [] := by
      rw [List.filter_eq_nil_iff]
      intro y hy
      simpa using hnone y (h.mem_iff.1 hy)
    rw [hys, eq_comm, List.filter_eq_nil_iff]
    simpa using hnone

theorem filter (h : SortedBy f xs ys) (p : α → Bool) : SortedBy f (xs.filter p) (ys.filter p) := by
  refine ⟨h.ordered.filter p, fun k => ?_⟩
  rw [List.filter_comm, h.kept, List.filter_comm]

theorem map {β : Type} {g : β → α} {xs ys : List β} (h : SortedBy (f ∘ g) xs ys) :
    SortedBy f (xs.map g) (ys.map g) := by
  refine ⟨List.pairwise_map.2 h.ordered, fun k => ?_⟩
  rw [List.filter_map, List.filter_map]
  exact congrArg (List.map g) (h.kept k)

end SortedBy

/-! ### Putting an element into a sorted list -/

/-- An element put between lower and higher keys leaves the list in order. -/
private theorem pairwise_insert (hordered : (left ++ right).Pairwise fun x y => f x ≤ f y)
    (hleft : ∀ y ∈ left, f y ≤ f x)
    (hright : ∀ y ∈ right, f x ≤ f y) : (left ++ x :: right).Pairwise fun x y => f x ≤ f y := by
  obtain ⟨hl, hr, hcross⟩ := List.pairwise_append.1 hordered
  refine List.pairwise_append.2 ⟨hl, List.pairwise_cons.2 ⟨hright, hr⟩, fun y hy z hz => ?_⟩
  rcases List.mem_cons.1 hz with rfl | hz
  · exact hleft y hy
  · exact hcross y hy z hz

private theorem filter_insert_of_lt (hleft : ∀ y ∈ left, f y < f x) (k : κ) :
    (left ++ x :: right).filter (fun x => f x = k) = (x :: (left ++ right)).filter (fun x => f x = k) := by
  by_cases hk : f x = k
  · have hnil : left.filter (fun x => f x = k) = [] := by
      rw [List.filter_eq_nil_iff]
      intro y hy
      simpa [← hk] using (hleft y hy).ne
    simp [hk, hnil]
  · simp [hk]

private theorem filter_insert_of_gt (hright : ∀ y ∈ right, f x < f y) (k : κ) :
    (left ++ x :: right).filter (fun x => f x = k) = (left ++ right ++ [x]).filter (fun x => f x = k) := by
  by_cases hk : f x = k
  · have hnil : right.filter (fun x => f x = k) = [] := by
      rw [List.filter_eq_nil_iff]
      intro y hy
      simpa [← hk] using (hright y hy).ne'
    simp [hk, hnil]
  · simp [hk]

private theorem exists_insertSorted (f : α → κ) (x : α) (hordered : ys.Pairwise fun x y => f x ≤ f y) :
    ∃ left right, ys = left ++ right ∧ insertSorted (fun x y => f x < f y) x ys = left ++ x :: right ∧
      (∀ y ∈ left, f y < f x) ∧ ∀ y ∈ right, f x ≤ f y := by
  induction ys with
  | nil => exact ⟨[], [], rfl, rfl, by simp, by simp⟩
  | cons y rest ih =>
    obtain ⟨hy, hrest⟩ := List.pairwise_cons.1 hordered
    by_cases hlt : f y < f x
    · obtain ⟨left, right, rfl, hinsert, hleft, hright⟩ := ih hrest
      exact ⟨y :: left, right, rfl, by simp [insertSorted, hlt, hinsert], List.forall_mem_cons.2 ⟨hlt, hleft⟩, hright⟩
    · have hle : f x ≤ f y := not_lt.1 hlt
      refine ⟨[], y :: rest, rfl, by simp [insertSorted, hlt], by simp, ?_⟩
      exact List.forall_mem_cons.2 ⟨hle, fun z hz => hle.trans (hy z hz)⟩

theorem sortedBy_sorted (f : α → κ) (xs : List α) : SortedBy f xs (sorted (fun x y => f x < f y) xs) := by
  induction xs with
  | nil => exact ⟨.nil, fun _ => rfl⟩
  | cons x rest ih =>
    obtain ⟨left, right, hsplit, hinsert, hleft, hright⟩ := exists_insertSorted f x ih.ordered
    refine ⟨?_, fun k => ?_⟩
    · rw [sorted, hinsert]
      exact pairwise_insert (hsplit ▸ ih.ordered) (fun y hy => (hleft y hy).le) hright
    · rw [sorted, hinsert, filter_insert_of_lt hleft, ← hsplit, List.filter_cons, List.filter_cons, ih.kept]

/-- What is sorted by different keys does not depend on the order that it came in. -/
theorem sorted_eq_of_perm {before : α → α → Bool} (hbefore : ∀ x y, before x y ↔ f x < f y)
    (hf : Function.Injective f) (h : xs.Perm ys) : sorted before xs = sorted before ys := by
  obtain rfl : before = fun x y => decide (f x < f y) := by
    funext x y
    rw [Bool.eq_iff_iff, decide_eq_true_iff, hbefore]
  have hxs := sortedBy_sorted f xs
  have hys := sortedBy_sorted f ys
  refine List.Perm.eq_of_pairwise (fun x y _ _ hxy hyx => hf (le_antisymm hxy hyx)) hxs.ordered hys.ordered ?_
  exact ((sorted_perm _ xs).trans h).trans (sorted_perm _ ys).symm

/-! ### Sorting by a relation -/

/-- Whether a relation compares the elements of a list by a key. -/
def ComparesBy (rel : α → α → Relation) (f : α → κ) (xs : List α) : Prop :=
  ∀ x ∈ xs, ∀ y ∈ xs, rel x y = .before ∧ f x < f y ∨ rel x y = .same ∧ f x = f y ∨ rel x y = .after ∧ f y < f x

theorem ComparesBy.isBefore? (h : ComparesBy rel f xs) (hx : x ∈ xs) (hy : y ∈ xs) :
    isBefore? rel x y = some (decide (f x < f y)) := by
  unfold Order.isBefore?
  rcases h x hx y hy with ⟨hrel, hlt⟩ | ⟨hrel, heq⟩ | ⟨hrel, hgt⟩
  · simp [hrel, hlt]
  · simp [hrel, heq]
  · simp [hrel, hgt.not_gt]

theorem ComparesBy.before_iff (h : ComparesBy rel f xs) (hx : x ∈ xs) (hy : y ∈ xs) :
    rel x y = .before ↔ f x < f y := by
  rcases h x hx y hy with ⟨hrel, hlt⟩ | ⟨hrel, heq⟩ | ⟨hrel, hgt⟩
  · simp [hrel, hlt]
  · simp [hrel, heq]
  · simp [hrel, hgt.not_gt]

theorem ComparesBy.same_iff (h : ComparesBy rel f xs) (hx : x ∈ xs) (hy : y ∈ xs) :
    rel x y = .same ↔ f x = f y := by
  rcases h x hx y hy with ⟨hrel, hlt⟩ | ⟨hrel, heq⟩ | ⟨hrel, hgt⟩
  · simp [hrel, hlt.ne]
  · simp [hrel, heq]
  · simp [hrel, hgt.ne']

theorem ComparesBy.subset (h : ComparesBy rel f xs) (hsub : ys ⊆ xs) : ComparesBy rel f ys :=
  fun x hx y hy => h x (hsub hx) y (hsub hy)

private theorem exists_insertHalving (h : ComparesBy rel f (x :: ys)) (hordered : ys.Pairwise fun x y => f x ≤ f y) :
    ∃ left right, ys = left ++ right ∧ insertHalving? rel x ys = some (left ++ x :: right) ∧
      (∀ y ∈ left, f y ≤ f x) ∧ ∀ y ∈ right, f x < f y := by
  -- whichever half the element goes into, all before it have at most its key, and all after it have more
  fun_induction insertHalving? rel x ys with
  | case1 ys hd =>
    obtain rfl : ys = [] := by
      have hlength := congrArg List.length hd
      refine List.length_eq_zero_iff.1 ?_
      simp at hlength
      omega
    exact ⟨[], [], rfl, rfl, by simp, by simp⟩
  | case2 ys y right hd ihl ihr =>
    have hys : ys = ys.take (ys.length / 2) ++ y :: right := by rw [← hd, List.take_append_drop]
    generalize ys.take (ys.length / 2) = left at ihl hys
    subst hys
    obtain ⟨hl, hr, hcross⟩ := List.pairwise_append.1 hordered
    obtain ⟨hy, hr⟩ := List.pairwise_cons.1 hr
    rw [h.isBefore? (by simp) (by simp)]
    by_cases hlt : f x < f y
    · obtain ⟨l, r, rfl, hinsert, hlow, hhigh⟩ := ihl (h.subset (by simp)) hl
      refine ⟨l, r ++ y :: right, by simp, by simp [hlt, hinsert], hlow, ?_⟩
      intro z hz
      rcases List.mem_append.1 hz with hz | hz
      · exact hhigh z hz
      · rcases List.mem_cons.1 hz with rfl | hz
        · exact hlt
        · exact hlt.trans_le (hy z hz)
    · have hsub : x :: right ⊆ x :: (left ++ y :: right) := List.cons_subset_cons _ (by simp)
      obtain ⟨l, r, rfl, hinsert, hlow, hhigh⟩ := ihr (h.subset hsub) hr
      refine ⟨left ++ y :: l, r, by simp, by simp [hlt, hinsert], ?_, hhigh⟩
      have hle : f y ≤ f x := not_lt.1 hlt
      intro z hz
      rcases List.mem_append.1 hz with hz | hz
      · exact (hcross z hz y (by simp)).trans hle
      · rcases List.mem_cons.1 hz with rfl | hz
        · exact hle
        · exact hlow z hz

private theorem sortedBy_foldlM (h : ComparesBy rel f (ys ++ xs)) (hordered : ys.Pairwise fun x y => f x ≤ f y) :
    ∃ zs, xs.foldlM (fun ys x => insertHalving? rel x ys) ys = some zs ∧ SortedBy f (ys ++ xs) zs := by
  induction xs generalizing ys with
  | nil => exact ⟨ys, rfl, hordered, fun k => by rw [List.append_nil]⟩
  | cons x rest ih =>
    have hins : x :: ys ⊆ ys ++ x :: rest := by simp
    obtain ⟨left, right, rfl, hinsert, hleft, hright⟩ := exists_insertHalving (h.subset hins) hordered
    have hmem : left ++ x :: right ++ rest ⊆ left ++ right ++ x :: rest := by
      intro z
      simp only [List.mem_append, List.mem_cons]
      tauto
    obtain ⟨zs, hzs, hsorted⟩ := ih (h.subset hmem)
      (pairwise_insert hordered hleft fun y hy => (hright y hy).le)
    refine ⟨zs, by rw [List.foldlM_cons, hinsert]; exact hzs, hsorted.trans fun k => ?_⟩
    have hsplit : left ++ right ++ x :: rest = left ++ right ++ [x] ++ rest := by simp
    rw [hsplit, List.filter_append, filter_insert_of_gt hright, ← List.filter_append]

/-! ### The leading run -/

private theorem pairwise_takeRun {follows : α → α → Option Bool} {ahead : α} {R : α → α → Prop} [DecidableRel R]
    (htrans : ∀ x y z, R x y → R y z → R x z)
    (h : ∀ x ∈ ahead :: xs, ∀ y ∈ ahead :: xs, follows x y = some (decide (R x y))) :
    ∃ run rest, takeRun? follows ahead xs = some (run, rest) ∧ xs = run ++ rest ∧ (ahead :: run).Pairwise R := by
  induction xs generalizing ahead with
  | nil => exact ⟨[], [], rfl, rfl, List.pairwise_singleton R ahead⟩
  | cons x rest ih =>
    obtain ⟨run, rest', htake, rfl, hrun⟩ := ih fun y hy z hz =>
      h y (List.mem_cons_of_mem _ hy) z (List.mem_cons_of_mem _ hz)
    have hfollows := h ahead (by simp) x (by simp)
    by_cases hR : R ahead x
    · refine ⟨x :: run, rest', by simp [takeRun?, hfollows, hR, htake], rfl, List.pairwise_cons.2 ⟨?_, hrun⟩⟩
      refine List.forall_mem_cons.2 ⟨hR, fun y hy => ?_⟩
      exact htrans ahead x y hR (List.rel_of_pairwise_cons hrun hy)
    · exact ⟨[], x :: (run ++ rest'), by simp [takeRun?, hfollows, hR], rfl, List.pairwise_singleton R ahead⟩

/-- A strictly falling run has no two elements of one key, so it can be turned around. -/
private theorem sortedBy_reverse (h : xs.Pairwise fun x y => f y < f x) : SortedBy f xs xs.reverse := by
  refine ⟨List.pairwise_reverse.2 (h.imp le_of_lt), fun k => ?_⟩
  rw [List.filter_reverse]
  match hk : xs.filter fun x => f x = k with
  | [] => rfl
  | [_] => rfl
  | x :: y :: rest =>
    have hstrict := h.filter fun x => f x = k
    have hkey : ∀ z ∈ xs.filter fun x => f x = k, f z = k := fun z hz => by simpa using (List.mem_filter.1 hz).2
    rw [hk] at hstrict hkey
    have hlt := List.rel_of_pairwise_cons hstrict (List.mem_cons_self (a := y))
    rw [hkey x (by simp), hkey y (by simp)] at hlt
    exact absurd hlt (lt_irrefl k)

theorem sortedBy_of_pairwise (h : xs.Pairwise fun x y => f x ≤ f y) : SortedBy f xs xs := ⟨h, fun _ => rfl⟩

private theorem sortedBy_leadingRun (h : ComparesBy rel f xs) :
    ∃ run used rest, leadingRun? rel xs = some (run, rest) ∧ xs = used ++ rest ∧ SortedBy f used run := by
  match xs, h with
  | [], _ => exact ⟨[], [], [], rfl, rfl, sortedBy_of_pairwise .nil⟩
  | [x], _ => exact ⟨[x], [x], [], rfl, rfl, sortedBy_of_pairwise (List.pairwise_singleton _ x)⟩
  | x :: y :: rest, h =>
    have hbefore : ∀ z ∈ y :: rest, ∀ z' ∈ y :: rest, isBefore? rel z' z = some (decide (f z' < f z)) :=
      fun z hz z' hz' => h.isBefore? (List.mem_cons_of_mem _ hz') (List.mem_cons_of_mem _ hz)
    have hfirst := h.isBefore? (x := y) (y := x) (by simp) (by simp)
    by_cases hlt : f y < f x
    · obtain ⟨run, rest', htake, rfl, hrun⟩ :=
        pairwise_takeRun (R := fun z z' => f z' < f z) (fun _ _ _ h h' => lt_trans h' h) hbefore
      have hall : (x :: y :: run).Pairwise fun z z' => f z' < f z := by
        refine List.pairwise_cons.2 ⟨List.forall_mem_cons.2 ⟨hlt, fun z hz => ?_⟩, hrun⟩
        exact (List.rel_of_pairwise_cons hrun hz).trans hlt
      refine ⟨(x :: y :: run).reverse, x :: y :: run, rest', ?_, rfl, sortedBy_reverse hall⟩
      simp [leadingRun?, hfirst, hlt, htake]
    · have hnot : ∀ z ∈ y :: rest, ∀ z' ∈ y :: rest,
          (isBefore? rel z' z).map (!·) = some (decide (f z ≤ f z')) := by
        intro z hz z' hz'
        rw [hbefore z hz z' hz', Option.map_some, ← decide_not]
        simp only [not_lt]
      obtain ⟨run, rest', htake, rfl, hrun⟩ :=
        pairwise_takeRun (R := fun z z' => f z ≤ f z') (fun _ _ _ => le_trans) hnot
      have hall : (x :: y :: run).Pairwise fun z z' => f z ≤ f z' := by
        refine List.pairwise_cons.2 ⟨List.forall_mem_cons.2 ⟨not_lt.1 hlt, fun z hz => ?_⟩, hrun⟩
        exact (not_lt.1 hlt).trans (List.rel_of_pairwise_cons hrun hz)
      refine ⟨x :: y :: run, x :: y :: run, rest', ?_, rfl, sortedBy_of_pairwise hall⟩
      simp [leadingRun?, hfirst, hlt, htake]

/-- A relation that compares by a key sorts by the key. -/
theorem exists_sortBy?_sortedBy (h : ComparesBy rel f xs) : ∃ ys, sortBy? rel xs = some ys ∧ SortedBy f xs ys := by
  obtain ⟨run, used, rest, hlead, rfl, hrun⟩ := sortedBy_leadingRun h
  have hsub : run ++ rest ⊆ used ++ rest := by
    intro x hx
    rcases List.mem_append.1 hx with hx | hx
    · exact List.mem_append_left _ (hrun.mem_iff.1 hx)
    · exact List.mem_append_right _ hx
  obtain ⟨ys, hys, hsorted⟩ := sortedBy_foldlM (h.subset hsub) hrun.ordered
  refine ⟨ys, by rw [sortBy?, hlead]; exact hys, hsorted.trans fun k => ?_⟩
  rw [List.filter_append, List.filter_append, hrun.kept]

end Compaction.Order
