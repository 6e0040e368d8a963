import Compaction.Proofs.Filter.Match
import Mathlib.Data.List.Perm.Basic

/-!
# Groups and pairs in another order

A filter is tried up to the first group, and a group up to the first pair, that decides. What decides depends on the
order: among the orders of one filter some give true exactly if a group holds, some give false exactly if every group
is refuted, and some fail exactly if a text does not fit its value (`Holds`, `Refuted`, `Fits`). The first two exclude
each other, so the order does not matter exactly if every text fits, or if no order gives a truth value and all fail for
that reason (`selects_rearranged_iff`).
-/

namespace Compaction.Filter

/-! ### The first result that decides -/

/-- The first result other than `b`, or `b` if there is none. -/
def firstOther (b : Bool) : List (Except Fault Bool) → Except Fault Bool
  | [] => .ok b
  | .ok c :: rest => if c = b then firstOther b rest else .ok c
  | .error fault :: _ => .error fault

/-- Those that satisfy `P` first. -/
def bring {α : Type} (P : α → Prop) [DecidablePred P] (xs : List α) : List α := xs.filter (P ·) ++ xs.filter (¬ P ·)

private theorem perm_bring {α : Type} (P : α → Prop) [DecidablePred P] (xs : List α) : xs.Perm (bring P xs) := by
  have hperm := List.filter_append_perm (P ·) xs
  simp only [← decide_not] at hperm
  exact hperm.symm

private theorem firstOther_cons_of_ne {b : Bool} {x : Except Fault Bool} (h : x ≠ .ok b)
    (rest : List (Except Fault Bool)) : firstOther b (x :: rest) = x := by
  cases x with
  | error fault => rfl
  | ok c =>
    have hc : c ≠ b := fun hc => h (congrArg _ hc)
    rw [firstOther, if_neg hc]

private theorem firstOther_cases {α : Type} (b : Bool) (result : α → Except Fault Bool) (xs : List α) :
    (firstOther b (xs.map result) = .ok b ∧ ∀ x ∈ xs, result x = .ok b) ∨
      (firstOther b (xs.map result) ≠ .ok b ∧ ∃ x ∈ xs, firstOther b (xs.map result) = result x) := by
  induction xs with
  | nil => simp [firstOther]
  | cons x rest ih =>
    by_cases hx : result x = .ok b
    · have hrest : firstOther b ((x :: rest).map result) = firstOther b (rest.map result) := by
        rw [List.map_cons, hx, firstOther, if_pos rfl]
      rw [hrest, List.forall_mem_cons]
      refine ih.imp (fun h => ⟨h.1, hx, h.2⟩) fun ⟨hother, y, hy, hresult⟩ => ⟨hother, y, ?_, hresult⟩
      exact List.mem_cons_of_mem _ hy
    · rw [List.map_cons, firstOther_cons_of_ne hx]
      exact .inr ⟨hx, x, List.mem_cons_self, rfl⟩

/-- What decides can be brought to the front. -/
private theorem exists_firstOther_bring {α : Type} (b : Bool) (P : α → Prop) [DecidablePred P]
    (result : α → Except Fault Bool) {xs : List α} (hP : ∀ x, P x → result x ≠ .ok b) (h : ∃ x ∈ xs, P x) :
    ∃ x ∈ xs, P x ∧ firstOther b ((bring P xs).map result) = result x := by
  obtain ⟨x, hx, hPx⟩ := h
  have hne : xs.filter (P ·) ≠ [] := List.ne_nil_of_mem (List.mem_filter.2 ⟨hx, decide_eq_true hPx⟩)
  obtain ⟨y, ys, hfound⟩ := List.exists_cons_of_ne_nil hne
  obtain ⟨hy, hPy⟩ := List.mem_filter.1 (hfound ▸ List.mem_cons_self : y ∈ xs.filter (P ·))
  refine ⟨y, hy, of_decide_eq_true hPy, ?_⟩
  rw [bring, hfound, List.cons_append, List.map_cons, firstOther_cons_of_ne (hP y (of_decide_eq_true hPy))]

/-! ### What a filter comes to -/

variable {f g : Filter} {value : String → Value} {fault : Fault}

/-- Whether a value is what a pair asks for. -/
def pairMatches (value : String → Value) (p : String × String) : Except Fault Bool :=
  sameValue p.1 (value p.1) p.2

private theorem matchesGroup_eq (value : String → Value) (group : List (String × String)) :
    matchesGroup value group = firstOther true (group.map (pairMatches value)) := by
  induction group with
  | nil => rfl
  | cons p rest ih =>
    rw [matchesGroup, List.map_cons, pairMatches]
    rcases sameValue p.1 (value p.1) p.2 with fault | b
    · rfl
    · cases b with
      | false => rfl
      | true => exact ih

private theorem selects_eq_firstOther (f : Filter) (value : String → Value) :
    f.selects value = firstOther false (f.groups.map (matchesGroup value)) := by
  unfold selects
  induction f.groups with
  | nil => rfl
  | cons group rest ih =>
    rw [matchesSome, List.map_cons]
    rcases matchesGroup value group with fault | b
    · rfl
    · cases b with
      | false => exact ih
      | true => rfl

/-- Whether all pairs of some group match. -/
def Holds (f : Filter) (value : String → Value) : Prop :=
  ∃ group ∈ f.groups, ∀ p ∈ group, pairMatches value p = .ok true

/-- Whether in every group some pair does not match. -/
def Refuted (f : Filter) (value : String → Value) : Prop :=
  ∀ group ∈ f.groups, ∃ p ∈ group, pairMatches value p = .ok false

/-- Whether every text fits the type of its value. -/
def Fits (f : Filter) (value : String → Value) : Prop :=
  ∀ group ∈ f.groups, ∀ p ∈ group, ∃ b, pairMatches value p = .ok b

/-- Whether every value that is compared by its text has one. -/
def Shows (f : Filter) (value : String → Value) : Prop :=
  ∀ group ∈ f.groups, ∀ p ∈ group, pairMatches value p ≠ .error .unprintable

private theorem shows_of_prints (h : ∀ column, (value column).prints) : f.Shows value := by
  intro group _ p _ hfault
  have hkind := kind_of_sameValue (h p.1) hfault
  cases hkind

private theorem not_holds_of_refuted (h : f.Refuted value) : ¬ f.Holds value := by
  rintro ⟨group, hgroup, hall⟩
  obtain ⟨p, hp, hfalse⟩ := h group hgroup
  have htrue := hall p hp
  rw [hfalse] at htrue
  cases htrue

private theorem selects_cases (f : Filter) (value : String → Value) :
    (f.selects value = .ok false ∧ ∀ group ∈ f.groups, matchesGroup value group = .ok false) ∨
      (f.selects value ≠ .ok false ∧ ∃ group ∈ f.groups, f.selects value = matchesGroup value group) := by
  rw [selects_eq_firstOther]
  exact firstOther_cases false _ _

theorem matchesGroup_cases (value : String → Value) (group : List (String × String)) :
    (matchesGroup value group = .ok true ∧ ∀ p ∈ group, pairMatches value p = .ok true) ∨
      (matchesGroup value group ≠ .ok true ∧ ∃ p ∈ group, matchesGroup value group = pairMatches value p) := by
  rw [matchesGroup_eq]
  exact firstOther_cases true _ _

private theorem holds_of_selects (h : f.selects value = .ok true) : f.Holds value := by
  rcases selects_cases f value with ⟨hfalse, -⟩ | ⟨-, group, hgroup, hresult⟩
  · rw [h] at hfalse
    cases hfalse
  · rcases matchesGroup_cases value group with ⟨-, hall⟩ | ⟨hother, -⟩
    · exact ⟨group, hgroup, hall⟩
    · exact absurd (hresult.symm.trans h) hother

private theorem refuted_of_selects (h : f.selects value = .ok false) : f.Refuted value := by
  rcases selects_cases f value with ⟨-, hall⟩ | ⟨hother, -⟩
  · intro group hgroup
    rcases matchesGroup_cases value group with ⟨htrue, -⟩ | ⟨-, p, hp, hresult⟩
    · rw [hall group hgroup] at htrue
      cases htrue
    · exact ⟨p, hp, hresult.symm.trans (hall group hgroup)⟩
  · exact absurd h hother

/-- A fault is that of some pair. -/
private theorem exists_pairMatches_of_selects (h : f.selects value = .error fault) :
    ∃ group ∈ f.groups, ∃ p ∈ group, pairMatches value p = .error fault := by
  rcases selects_cases f value with ⟨hfalse, -⟩ | ⟨-, group, hgroup, hresult⟩
  · rw [h] at hfalse
    cases hfalse
  · rw [h] at hresult
    rcases matchesGroup_cases value group with ⟨htrue, -⟩ | ⟨-, p, hp, hpair⟩
    · rw [← hresult] at htrue
      cases htrue
    · exact ⟨group, hgroup, p, hp, hpair.symm.trans hresult.symm⟩

private theorem not_fits_of_selects (h : f.selects value = .error fault) : ¬ f.Fits value := by
  intro hfits
  obtain ⟨group, hgroup, p, hp, hpair⟩ := exists_pairMatches_of_selects h
  obtain ⟨b, hb⟩ := hfits group hgroup p hp
  rw [hpair] at hb
  cases hb

/-! ### Other orders -/

/-- Whether `g` has the groups of `f`, and each of them its pairs, in any order. -/
def Rearranges (f g : Filter) : Prop :=
  ∃ groups, f.groups.Perm groups ∧ List.Forall₂ List.Perm groups g.groups

namespace Rearranges

private theorem exists_before (h : f.Rearranges g) : ∀ group' ∈ g.groups, ∃ group ∈ f.groups, group.Perm group' := by
  obtain ⟨groups, hperm, hpairs⟩ := h
  intro group' hgroup'
  obtain ⟨i, hi, rfl⟩ := List.getElem_of_mem hgroup'
  have hlength := hpairs.length_eq
  exact ⟨groups[i], hperm.mem_iff.2 (List.getElem_mem _), hpairs.get (by omega) hi⟩

private theorem exists_after (h : f.Rearranges g) : ∀ group ∈ f.groups, ∃ group' ∈ g.groups, group.Perm group' := by
  obtain ⟨groups, hperm, hpairs⟩ := h
  intro group hgroup
  obtain ⟨i, hi, rfl⟩ := List.getElem_of_mem (hperm.mem_iff.1 hgroup)
  have hlength := hpairs.length_eq
  exact ⟨g.groups[i], List.getElem_mem _, hpairs.get hi (by omega)⟩

theorem holds (h : f.Rearranges g) (hg : g.Holds value) : f.Holds value := by
  obtain ⟨group', hgroup', hall⟩ := hg
  obtain ⟨group, hgroup, hperm⟩ := h.exists_before group' hgroup'
  exact ⟨group, hgroup, fun p hp => hall p (hperm.mem_iff.1 hp)⟩

private theorem refuted (h : f.Rearranges g) (hg : g.Refuted value) : f.Refuted value := by
  intro group hgroup
  obtain ⟨group', hgroup', hperm⟩ := h.exists_after group hgroup
  obtain ⟨p, hp, hfalse⟩ := hg group' hgroup'
  exact ⟨p, hperm.mem_iff.2 hp, hfalse⟩

theorem fits (h : f.Rearranges g) (hf : f.Fits value) : g.Fits value := by
  intro group' hgroup' p hp
  obtain ⟨group, hgroup, hperm⟩ := h.exists_before group' hgroup'
  exact hf group hgroup p (hperm.mem_iff.2 hp)

theorem shown (h : f.Rearranges g) (hf : f.Shows value) : g.Shows value := by
  intro group' hgroup' p hp
  obtain ⟨group, hgroup, hperm⟩ := h.exists_before group' hgroup'
  exact hf group hgroup p (hperm.mem_iff.2 hp)

end Rearranges

/-- The groups that satisfy `Q` first, and in each group the pairs that satisfy `P` first. -/
def withFirst (P : String × String → Prop) [DecidablePred P] (Q : List (String × String) → Prop) [DecidablePred Q]
    (f : Filter) : Filter :=
  ⟨(bring Q f.groups).map (bring P)⟩

private theorem rearranges_withFirst (P : String × String → Prop) [DecidablePred P] (Q : List (String × String) → Prop)
    [DecidablePred Q] (f : Filter) : f.Rearranges (f.withFirst P Q) := by
  refine ⟨bring Q f.groups, perm_bring Q f.groups, ?_⟩
  rw [withFirst, List.forall₂_map_right_iff, List.forall₂_same]
  exact fun group _ => perm_bring P group

private theorem selects_withFirst (P : String × String → Prop) [DecidablePred P] (Q : List (String × String) → Prop)
    [DecidablePred Q] (f : Filter) (value : String → Value) : (f.withFirst P Q).selects value =
      firstOther false ((bring Q f.groups).map fun group => matchesGroup value (bring P group)) := by
  rw [selects_eq_firstOther, withFirst, List.map_map]
  rfl

private theorem exists_matchesGroup_bring {P : String × String → Prop} [DecidablePred P]
    {group : List (String × String)} (hP : ∀ p, P p → pairMatches value p ≠ .ok true) (h : ∃ p ∈ group, P p) :
    ∃ p ∈ group, P p ∧ matchesGroup value (bring P group) = pairMatches value p := by
  rw [matchesGroup_eq]
  exact exists_firstOther_bring true P _ hP h

private theorem exists_rearranged_true (h : f.Holds value) : ∃ g, f.Rearranges g ∧ g.selects value = .ok true := by
  classical
  obtain ⟨group, hgroup, hall⟩ := h
  let result (group : List (String × String)) := matchesGroup value (bring (fun _ => True) group)
  have hmatches : result group = .ok true := by
    rcases matchesGroup_cases value (bring (fun _ => True) group) with ⟨htrue, -⟩ | ⟨-, p, hp, hresult⟩
    · exact htrue
    · exact hresult.trans (hall p ((perm_bring _ _).mem_iff.2 hp))
  have hdecides : ∀ group, result group = .ok true → result group ≠ .ok false := by
    intro group htrue hfalse
    rw [htrue] at hfalse
    cases hfalse
  obtain ⟨group', -, htrue, hresult⟩ := exists_firstOther_bring false _ result hdecides ⟨group, hgroup, hmatches⟩
  exact ⟨_, rearranges_withFirst _ _ f, (selects_withFirst _ _ f value).trans (hresult.trans htrue)⟩

private theorem exists_rearranged_false (h : f.Refuted value) : ∃ g, f.Rearranges g ∧ g.selects value = .ok false := by
  classical
  let P (p : String × String) := pairMatches value p = .ok false
  have hdecides : ∀ p, P p → pairMatches value p ≠ .ok true := by
    intro p hfalse htrue
    rw [show pairMatches value p = .ok false from hfalse] at htrue
    cases htrue
  refine ⟨_, rearranges_withFirst P (fun _ => True) f, ?_⟩
  rw [selects_withFirst]
  rcases firstOther_cases false (fun group => matchesGroup value (bring P group)) (bring (fun _ => True) f.groups) with
    ⟨hfalse, -⟩ | ⟨-, group, hgroup, hresult⟩
  · exact hfalse
  · obtain ⟨p, -, hfalse, hp⟩ := exists_matchesGroup_bring hdecides (h group ((perm_bring _ _).mem_iff.2 hgroup))
    exact hresult.trans (hp.trans hfalse)

/-- The fault of any one pair is that of some order. -/
private theorem exists_rearranged_error {p : String × String} {group : List (String × String)}
    (hgroup : group ∈ f.groups) (hp : p ∈ group) (hfault : pairMatches value p = .error fault) :
    ∃ g, f.Rearranges g ∧ g.selects value = .error fault := by
  classical
  let P (p : String × String) := pairMatches value p = .error fault
  let result (group : List (String × String)) := matchesGroup value (bring P group)
  have hdecides : ∀ p, P p → pairMatches value p ≠ .ok true := by
    intro p hfails htrue
    rw [show pairMatches value p = .error fault from hfails] at htrue
    cases htrue
  have hfails : ∃ group ∈ f.groups, result group = .error fault := by
    obtain ⟨q, -, hq, hresult⟩ := exists_matchesGroup_bring hdecides ⟨p, hp, hfault⟩
    exact ⟨group, hgroup, hresult.trans hq⟩
  have hother : ∀ group, result group = .error fault → result group ≠ .ok false := by
    intro group hfails hfalse
    rw [hfails] at hfalse
    cases hfalse
  obtain ⟨group, -, hfault, hresult⟩ := exists_firstOther_bring false _ result hother hfails
  exact ⟨_, rearranges_withFirst P _ f, (selects_withFirst P _ f value).trans (hresult.trans hfault)⟩

private theorem exists_pairMatches_of_not_fits (h : ¬ f.Fits value) :
    ∃ group ∈ f.groups, ∃ p ∈ group, ∃ fault, pairMatches value p = .error fault := by
  simp only [Fits, not_forall, not_exists] at h
  obtain ⟨group, hgroup, p, hp, hnone⟩ := h
  refine ⟨group, hgroup, p, hp, ?_⟩
  cases hresult : pairMatches value p with
  | error fault => exact ⟨fault, rfl⟩
  | ok b => exact absurd hresult (hnone b)

/-! ### When the order matters -/

/-- The same truth value, or an argument that is not valid in both. -/
inductive SameOutcome : Except Fault Bool → Except Fault Bool → Prop
  | truth (b : Bool) : SameOutcome (.ok b) (.ok b)
  | fault {e e' : Fault} (h : e.kind = .invalidArgument) (h' : e'.kind = .invalidArgument) :
    SameOutcome (.error e) (.error e')

private theorem SameOutcome.not_error_ok {x : Except Fault Bool} {b : Bool} (h : SameOutcome x (.error fault))
    (h' : SameOutcome x (.ok b)) : False := by
  cases h
  cases h'

private theorem SameOutcome.kind_right {x y : Except Fault Bool} (h : SameOutcome x y) (hy : y = .error fault) :
    fault.kind = .invalidArgument := by
  cases h with
  | truth b => cases hy
  | fault h h' =>
    cases hy
    exact h'

private theorem Rearranges.eq_of_selects (h : f.Rearranges g) {b c : Bool} (hb : f.selects value = .ok b)
    (hc : g.selects value = .ok c) : b = c := by
  cases b <;> cases c
  · rfl
  · exact absurd (h.holds (holds_of_selects hc)) (not_holds_of_refuted (refuted_of_selects hb))
  · exact absurd (holds_of_selects hb) (not_holds_of_refuted (h.refuted (refuted_of_selects hc)))
  · rfl

private theorem exists_selects_of_fits (h : f.Fits value) : ∃ b, f.selects value = .ok b := by
  cases hresult : f.selects value with
  | ok b => exact ⟨b, rfl⟩
  | error fault => exact absurd h (not_fits_of_selects hresult)

private theorem exists_fault_of_undecided (hholds : ¬ f.Holds value) (hrefuted : ¬ f.Refuted value)
    (hshows : f.Shows value) : ∃ fault, f.selects value = .error fault ∧ fault.kind = .invalidArgument := by
  cases hresult : f.selects value with
  | error fault =>
    obtain ⟨group, hgroup, p, hp, hpair⟩ := exists_pairMatches_of_selects hresult
    refine ⟨fault, rfl, (kind_or_of_sameValue hpair).resolve_right fun hnone => ?_⟩
    exact hshows group hgroup p hp (hpair.trans (congrArg _ hnone.1))
  | ok b =>
    cases b with
    | true => exact absurd (holds_of_selects hresult) hholds
    | false => exact absurd (refuted_of_selects hresult) hrefuted

/-- Two orders of a filter that both give a truth value give the same one. All orders come to the same exactly if every
text fits the type of its value, or if no group holds and not all groups are refuted, when all orders fail, and nothing
that is compared by its text is without one, as of values that print. -/
theorem selects_rearranged_iff (f : Filter) (value : String → Value) :
    (∀ g b c, f.Rearranges g → f.selects value = .ok b → g.selects value = .ok c → b = c) ∧
      ((∀ g, f.Rearranges g → SameOutcome (f.selects value) (g.selects value)) ↔
        f.Fits value ∨ (¬ f.Holds value ∧ ¬ f.Refuted value ∧ f.Shows value)) ∧
      ((∀ column, (value column).prints) → f.Shows value) := by
  refine ⟨fun g b c hg hb hc => hg.eq_of_selects hb hc, ⟨?_, ?_⟩, shows_of_prints⟩
  · intro hsame
    refine or_iff_not_imp_left.2 fun hfits => ?_
    -- some order fails, so none may give a truth value
    obtain ⟨group, hgroup, p, hp, fault, hpair⟩ := exists_pairMatches_of_not_fits hfits
    obtain ⟨g, hg, hfault⟩ := exists_rearranged_error hgroup hp hpair
    have hfails := hsame g hg
    rw [hfault] at hfails
    refine ⟨fun hholds => ?_, fun hrefuted => ?_, fun group hgroup p hp hnone => ?_⟩
    · obtain ⟨g', hg', htrue⟩ := exists_rearranged_true hholds
      exact hfails.not_error_ok (htrue ▸ hsame g' hg')
    · obtain ⟨g', hg', hfalse⟩ := exists_rearranged_false hrefuted
      exact hfails.not_error_ok (hfalse ▸ hsame g' hg')
    · obtain ⟨g', hg', hnone⟩ := exists_rearranged_error hgroup hp hnone
      have hkind := (hnone ▸ hsame g' hg').kind_right rfl
      cases hkind
  · rintro (hfits | ⟨hholds, hrefuted, hshows⟩) g hg
    · obtain ⟨b, hb⟩ := exists_selects_of_fits hfits
      obtain ⟨c, hc⟩ := exists_selects_of_fits (hg.fits hfits)
      rw [hb, hc, hg.eq_of_selects hb hc]
      exact .truth c
    · obtain ⟨e, he, hkind⟩ := exists_fault_of_undecided hholds hrefuted hshows
      obtain ⟨e', he', hkind'⟩ := exists_fault_of_undecided (fun h => hholds (hg.holds h))
        (fun h => hrefuted (hg.refuted h)) (hg.shown hshows)
      rw [he, he']
      exact .fault hkind hkind'

/-- A group that holds is found before or after a text that does not fit. -/
theorem selects_rearranged_of_two_groups :
    let value (column : String) : Value := if column = "a" then .int 1 else .int 5
    let f : Filter := ⟨[[("a", "1")], [("b", "x")]]⟩
    let g : Filter := ⟨[[("b", "x")], [("a", "1")]]⟩
    read "a=1;b=x" = .ok (some f) ∧ read "b=x;a=1" = .ok (some g) ∧ f.Rearranges g ∧
      f.selects value = .ok true ∧
      g.selects value = .error (.badFilterValue "x" "b" "int" (some (.bare .badValue))) ∧
      ¬ ∀ g, f.Rearranges g → SameOutcome (f.selects value) (g.selects value) := by
  intro value f g
  have hholds : f.Holds value := ⟨[("a", "1")], by simp [f], by simp; rfl⟩
  have hb : pairMatches value ("b", "x") = .error (.badFilterValue "x" "b" "int" (some (.bare .badValue))) := by rfl
  have hfits : ¬ f.Fits value := by
    intro h
    obtain ⟨b, hok⟩ := h [("b", "x")] (by simp [f]) ("b", "x") (by simp)
    rw [hb] at hok
    cases hok
  refine ⟨by rfl, by rfl, ⟨_, List.Perm.swap _ _ _, by simp [g, List.forall₂_same]⟩, by rfl, by rfl, ?_⟩
  rw [(selects_rearranged_iff f value).2.1]
  exact fun h => h.elim hfits fun h => h.1 hholds

end Compaction.Filter
