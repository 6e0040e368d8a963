import Compaction.Proofs.Order.Stable

/-!
# Ranks

The rank of an element among others is the number of those before it (`rankIn`). A relation that orders the elements
of a list totally (`Orders`) compares them by their ranks. The dense ranks of a column do as well, nulls first, where
the values of the column are keys (`exists_ranks`): the different keys are sorted, and no two of them are the same.
-/

namespace Compaction

namespace Order

variable {α β : Type} {rel : α → α → Relation} {x y z : α} {xs : List α}

/-- Whether a relation orders the elements of a list totally: one of two elements is before the other or they are the
same, whichever of them is asked about, and if none of three is after the next one, the first is not after the last. -/
structure Orders (rel : α → α → Relation) (xs : List α) : Prop where
  total : ∀ x ∈ xs, ∀ y ∈ xs, rel x y = .before ∧ rel y x = .after ∨ rel x y = .same ∧ rel y x = .same ∨
    rel x y = .after ∧ rel y x = .before
  trans : ∀ x ∈ xs, ∀ y ∈ xs, ∀ z ∈ xs, rel x y ≠ .after → rel y z ≠ .after → rel x z ≠ .after

instance : Decidable (Orders rel xs) :=
  decidable_of_iff ((∀ x ∈ xs, ∀ y ∈ xs, rel x y = .before ∧ rel y x = .after ∨ rel x y = .same ∧ rel y x = .same ∨
      rel x y = .after ∧ rel y x = .before) ∧
    ∀ x ∈ xs, ∀ y ∈ xs, ∀ z ∈ xs, rel x y ≠ .after → rel y z ≠ .after → rel x z ≠ .after)
    ⟨fun h => ⟨h.1, h.2⟩, fun h => ⟨h.total, h.trans⟩⟩

/-- The number of the elements before one. -/
def rankIn (rel : α → α → Relation) (xs : List α) (x : α) : Nat := (xs.filter fun y => rel y x = .before).length

namespace Orders

theorem map {rel' : β → β → Relation} {f : α → β} (h : Orders rel xs)
    (hrel : ∀ x ∈ xs, ∀ y ∈ xs, rel' (f x) (f y) = rel x y) : Orders rel' (xs.map f) := by
  constructor
  · rw [List.forall_mem_map]
    intro x hx
    rw [List.forall_mem_map]
    intro y hy
    rw [hrel x hx y hy, hrel y hy x hx]
    exact h.total x hx y hy
  · rw [List.forall_mem_map]
    intro x hx
    rw [List.forall_mem_map]
    intro y hy
    rw [List.forall_mem_map]
    intro z hz
    rw [hrel x hx y hy, hrel y hy z hz, hrel x hx z hz]
    exact h.trans x hx y hy z hz

theorem subset {ys : List α} (h : Orders rel xs) (hsub : ys ⊆ xs) : Orders rel ys :=
  ⟨fun x hx y hy => h.total x (hsub hx) y (hsub hy), fun x hx y hy z hz => h.trans x (hsub hx) y (hsub hy) z (hsub hz)⟩

theorem self (h : Orders rel xs) (hx : x ∈ xs) : rel x x = .same := by
  rcases h.total x hx x hx with ⟨hbefore, hafter⟩ | ⟨hsame, -⟩ | ⟨hafter, hbefore⟩
  · rw [hbefore] at hafter
    cases hafter
  · exact hsame
  · rw [hbefore] at hafter
    cases hafter

theorem before_iff (h : Orders rel xs) (hx : x ∈ xs) (hy : y ∈ xs) : rel x y = .before ↔ rel y x = .after := by
  rcases h.total x hx y hy with ⟨h₁, h₂⟩ | ⟨h₁, h₂⟩ | ⟨h₁, h₂⟩ <;> simp [h₁, h₂]

/-- What is before an element is before all that the element is not after. -/
private theorem before_trans (h : Orders rel xs) (hx : x ∈ xs) (hy : y ∈ xs) (hz : z ∈ xs) (hxy : rel x y = .before)
    (hyz : rel y z ≠ .after) : rel x z = .before := by
  rw [h.before_iff hx hz]
  by_contra hzx
  refine h.trans y hy z hz x hx hyz hzx ?_
  rwa [← h.before_iff hx hy]

private theorem rankIn_lt (h : Orders rel xs) (hx : x ∈ xs) (hy : y ∈ xs) (hxy : rel x y = .before) :
    rankIn rel xs x < rankIn rel xs y := by
  have hsub : xs.filter (fun z => rel z x = .before) =
      (xs.filter fun z => rel z y = .before).filter fun z => rel z x = .before := by
    rw [List.filter_filter]
    refine List.filter_congr fun z hz => ?_
    by_cases hzx : rel z x = .before
    · have hzy := h.before_trans hz hx hy hzx (by rw [hxy]; decide)
      simp [hzx, hzy]
    · simp [hzx]
  rw [rankIn, rankIn, hsub, List.length_filter_lt_length_iff_exists]
  exact ⟨x, List.mem_filter.2 ⟨hx, decide_eq_true hxy⟩, by simp [h.self hx]⟩

private theorem rankIn_eq (h : Orders rel xs) (hx : x ∈ xs) (hy : y ∈ xs) (hxy : rel x y = .same)
    (hyx : rel y x = .same) : rankIn rel xs x = rankIn rel xs y := by
  rw [rankIn, rankIn]
  congr 1
  refine List.filter_congr fun z hz => decide_eq_decide.2 ⟨fun hzx => ?_, fun hzy => ?_⟩
  · exact h.before_trans hz hx hy hzx (by rw [hxy]; decide)
  · exact h.before_trans hz hy hx hzy (by rw [hyx]; decide)

/-- A total order compares by rank. -/
theorem comparesBy (h : Orders rel xs) : ComparesBy rel (rankIn rel xs) xs := by
  intro x hx y hy
  rcases h.total x hx y hy with ⟨hxy, -⟩ | ⟨hxy, hyx⟩ | ⟨hxy, hyx⟩
  · exact .inl ⟨hxy, h.rankIn_lt hx hy hxy⟩
  · exact .inr (.inl ⟨hxy, h.rankIn_eq hx hy hxy hyx⟩)
  · exact .inr (.inr ⟨hxy, h.rankIn_lt hy hx hyx⟩)

end Orders

end Order

/-! ### Keys -/

private theorem eq_of_compareLists {α : Type} {cmp : α → α → Ordering} (hcmp : ∀ x y, cmp x y = .eq → x = y)
    {xs ys : List α} (h : compareLists cmp xs ys = .eq) : xs = ys := by
  induction xs generalizing ys with
  | nil =>
    cases ys with
    | nil => rfl
    | cons y ys => cases h
  | cons x xs ih =>
    cases ys with
    | nil => cases h
    | cons y ys =>
      rw [compareLists, Ordering.then_eq_eq] at h
      rw [hcmp x y h.1, ih h.2]

private theorem Extended.eq_of_order {x y : Extended} (h : x.order y = .eq) : x = y := by
  cases x <;> cases y <;> simp_all [order]

private theorem Relation.ofOrdering_eq_same {o : Ordering} (h : ofOrdering o = same) : o = .eq := by
  cases o with
  | eq => rfl
  | _ => cases h

theorem Key.eq_of_relation {k l : Key} (h : k.relation l = .same) : k = l := by
  cases k <;> cases l <;> try cases h
  case null.null => rfl
  case number.number x y => rw [Extended.eq_of_order (Relation.ofOrdering_eq_same h)]
  case unordered.unordered m n =>
    rw [relation] at h
    split at h
    · next hmn => rw [hmn]
    · cases h
  case text.text s t =>
    rw [eq_of_compareLists (fun a b hab => Nat.compare_eq_eq.1 hab) (Relation.ofOrdering_eq_same h)]
  case date.date m n => rw [Nat.compare_eq_eq.1 (Relation.ofOrdering_eq_same h)]
  case clock.clock m n => rw [compare_eq_iff_eq.1 (Relation.ofOrdering_eq_same h)]
  case instant.instant m n => rw [compare_eq_iff_eq.1 (Relation.ofOrdering_eq_same h)]
  case bytes.bytes a b =>
    rw [eq_of_compareLists (fun x y hxy => UInt8.toNat_inj.1 (Nat.compare_eq_eq.1 hxy))
      (Relation.ofOrdering_eq_same h)]
  case foreign.foreign name m name' n =>
    rw [relation] at h
    split at h
    · next hname => rw [hname, compare_eq_iff_eq.1 (Relation.ofOrdering_eq_same h)]
    · cases h

private theorem Value.relation_of_key {v w : Value} {k l : Key} (hv : v.key? = some k) (hw : w.key? = some l) :
    v.relation w = k.relation l := by
  unfold relation
  split
  · cases hv
  · cases hv
  · rw [hv, hw]

namespace Order

variable {α κ : Type} [LinearOrder κ] [DecidableEq α] {rel : α → α → Relation} {f : α → κ} {x y : α} {xs : List α}
  {v w : Value} {values : List Value} {k l : Key}

theorem eq_of_keysNullFirst (h : keysNullFirst k l = .same) : k = l := by
  unfold keysNullFirst at h
  split at h
  · rfl
  · cases h
  · cases h
  · exact Key.eq_of_relation h

theorem relationNullsFirst_of_not_null (hv : ¬ v.isNull) (hw : ¬ w.isNull) :
    v.relationNullsFirst w = v.relation w := by
  unfold Value.relationNullsFirst
  split
  · exact absurd rfl hv
  · exact absurd rfl hv
  · exact absurd rfl hw
  · rfl

theorem relationNullsFirst_of_key (hv : v.key? = some k) (hw : w.key? = some l) :
    v.relationNullsFirst w = keysNullFirst k l := by
  have hkv : v.isNull ↔ k = .null := by rw [Value.isNull_iff, hv, Option.some.injEq]
  have hlw : w.isNull ↔ l = .null := by rw [Value.isNull_iff, hw, Option.some.injEq]
  unfold keysNullFirst
  split
  · rw [Value.eq_null_of_isNull (hkv.2 rfl), Value.eq_null_of_isNull (hlw.2 rfl), Value.relationNullsFirst]
  · next hl =>
    rw [Value.eq_null_of_isNull (hkv.2 rfl), Value.relationNullsFirst]
    rintro rfl
    exact hl (hlw.1 rfl)
  · next hk =>
    rw [Value.eq_null_of_isNull (hlw.2 rfl), Value.relationNullsFirst]
    rintro rfl
    exact hk (hkv.1 rfl)
  · next hk hl _ =>
    rw [relationNullsFirst_of_not_null (fun h => hk (hkv.1 h)) fun h => hl (hlw.1 h), Value.relation_of_key hv hw]

/-! ### Columns -/

/-- Whether the values of a column are ordered totally, nulls apart. -/
def TotallyOrdered (values : List Value) : Prop := Orders Value.relation (values.filter (!·.isNull))

instance : Decidable (TotallyOrdered values) :=
  inferInstanceAs (Decidable (Orders Value.relation (values.filter (!·.isNull))))

theorem TotallyOrdered.subset {values' : List Value} (h : TotallyOrdered values) (hsub : values' ⊆ values) :
    TotallyOrdered values' := Orders.subset h (List.filter_subset _ hsub)

theorem relationNullsFirst_null (hv : v.isNull) (w : Value) :
    v.relationNullsFirst w = if w.isNull then .same else .before := by
  rw [Value.eq_null_of_isNull hv]
  cases w <;> rfl

theorem relationNullsFirst_not_null (hv : ¬ v.isNull) (hw : w.isNull) : v.relationNullsFirst w = .after := by
  rw [Value.eq_null_of_isNull hw]
  cases v
  case null => exact absurd rfl hv
  all_goals rfl

theorem TotallyOrdered.nullsFirst (h : TotallyOrdered values) : Orders Value.relationNullsFirst values := by
  have hmem : ∀ v ∈ values, ¬ v.isNull → v ∈ values.filter (!·.isNull) := fun v hv hnull =>
    List.mem_filter.2 ⟨hv, by simpa using hnull⟩
  constructor
  · intro v hv w hw
    by_cases hvn : v.isNull <;> by_cases hwn : w.isNull
    · simp [relationNullsFirst_null, hvn, hwn]
    · simp [relationNullsFirst_null, relationNullsFirst_not_null, hvn, hwn]
    · simp [relationNullsFirst_null, relationNullsFirst_not_null, hvn, hwn]
    · rw [relationNullsFirst_of_not_null hvn hwn, relationNullsFirst_of_not_null hwn hvn]
      exact h.total v (hmem v hv hvn) w (hmem w hw hwn)
  · intro u hu v hv w hw huv hvw
    by_cases hun : u.isNull
    · rw [relationNullsFirst_null hun]
      split <;> decide
    -- nothing that is no null stands before a null
    have hvn : ¬ v.isNull := fun hvn => huv (relationNullsFirst_not_null hun hvn)
    have hwn : ¬ w.isNull := fun hwn => hvw (relationNullsFirst_not_null hvn hwn)
    rw [relationNullsFirst_of_not_null hun hvn] at huv
    rw [relationNullsFirst_of_not_null hvn hwn] at hvw
    rw [relationNullsFirst_of_not_null hun hwn]
    exact h.trans u (hmem u hu hun) v (hmem v hv hvn) w (hmem w hw hwn) huv hvw

/-! ### Ranks of keys -/

theorem nodup_distinctBy_id (xs : List α) : (distinctBy id xs).Nodup := by
  induction xs with
  | nil => exact .nil
  | cons x rest ih =>
    rw [distinctBy, List.nodup_cons]
    exact ⟨by simp, ih.filter _⟩

/-- Elements that stand in the strict order of a key are numbered in that order. -/
private theorem idxOf_lt (h : xs.Pairwise fun x y => f x < f y) (hx : x ∈ xs) (hy : y ∈ xs) (hlt : f x < f y) :
    xs.idxOf x < xs.idxOf y := by
  by_contra hle
  rcases Nat.lt_or_eq_of_le (Nat.le_of_not_lt hle) with hafter | heq
  · have hgt := List.pairwise_iff_getElem.1 h _ _ (List.idxOf_lt_length_of_mem hy) (List.idxOf_lt_length_of_mem hx)
      hafter
    rw [List.getElem_idxOf, List.getElem_idxOf] at hgt
    exact lt_asymm hlt hgt
  · rw [(List.idxOf_inj hy).1 heq] at hlt
    exact lt_irrefl _ hlt

/-- The numbers of the different elements in order compare as the elements do, if the same ones are equal. -/
private theorem exists_distinct_order (h : ComparesBy rel f xs) (heq : ∀ x y, rel x y = .same → x = y) :
    ∃ order, sortBy? rel (distinctBy id xs) = some order ∧ ComparesBy rel (order.idxOf ·) xs := by
  have hsub : distinctBy id xs ⊆ xs := fun x hx => Filter.mem_distinctBy_id.1 hx
  obtain ⟨order, horder, hsorted⟩ := exists_sortBy?_sortedBy (h.subset hsub)
  have hmem : ∀ x ∈ xs, x ∈ order := fun x hx => hsorted.mem_iff.2 (Filter.mem_distinctBy_id.2 hx)
  have hnodup : order.Nodup := (sortBy?_perm horder).nodup_iff.2 (nodup_distinctBy_id xs)
  have hstrict : order.Pairwise fun x y => f x < f y := by
    refine (hsorted.ordered.and hnodup).imp_of_mem fun {x y} hx hy hle => ?_
    refine lt_of_le_of_ne hle.1 fun hkey => hle.2 ?_
    rcases h x (hsub (hsorted.mem_iff.1 hx)) y (hsub (hsorted.mem_iff.1 hy)) with ⟨-, hlt⟩ | ⟨hsame, -⟩ | ⟨-, hgt⟩
    · exact absurd hkey hlt.ne
    · exact heq x y hsame
    · exact absurd hkey hgt.ne'
  refine ⟨order, horder, fun x hx y hy => ?_⟩
  rcases h x hx y hy with ⟨hrel, hlt⟩ | ⟨hrel, -⟩ | ⟨hrel, hgt⟩
  · exact .inl ⟨hrel, idxOf_lt hstrict (hmem x hx) (hmem y hy) hlt⟩
  · exact .inr (.inl ⟨hrel, by rw [heq x y hrel]⟩)
  · exact .inr (.inr ⟨hrel, idxOf_lt hstrict (hmem y hy) (hmem x hx) hgt⟩)

private theorem mapM_eq_some {β γ : Type} {g : β → Option γ} {xs : List β} {ys : List γ} :
    xs.mapM g = some ys ↔ xs.map g = ys.map some := by
  induction xs generalizing ys with
  | nil => cases ys <;> simp
  | cons x rest ih =>
    rw [List.mapM_cons, List.map_cons]
    cases hx : g x with
    | none => cases ys <;> simp
    | some y =>
      cases ys with
      | nil => simp [Option.bind_eq_some_iff]
      | cons z ys => simp [Option.bind_eq_some_iff, ih, and_comm]

theorem exists_keys (hkeys : ∀ v ∈ values, v.key?.isSome) :
    ∃ key : Value → Key, (∀ v ∈ values, v.key? = some (key v)) ∧ values.mapM Value.key? = some (values.map key) := by
  have hexists : ∀ v ∈ values, ∃ k, v.key? = some k := fun v hv => Option.isSome_iff_exists.1 (hkeys v hv)
  have : Nonempty Key := ⟨.null⟩
  choose! key hkey using hexists
  refine ⟨key, hkey, ?_⟩
  rw [mapM_eq_some, List.map_map]
  exact List.map_congr_left hkey

/-- The ranks of a column whose values are keys compare as the values do. -/
theorem exists_ranks (h : TotallyOrdered values) (hkeys : ∀ v ∈ values, v.key?.isSome) :
    ∃ rank : Value → Nat, ranks values = .ok (values.map rank) ∧ ComparesBy Value.relationNullsFirst rank values := by
  obtain ⟨key, hkey, hmap⟩ := exists_keys hkeys
  have hrel : ∀ v ∈ values, ∀ w ∈ values, keysNullFirst (key v) (key w) = v.relationNullsFirst w := fun v hv w hw =>
    (relationNullsFirst_of_key (hkey v hv) (hkey w hw)).symm
  obtain ⟨order, horder, hcompares⟩ :=
    exists_distinct_order (h.nullsFirst.map hrel).comparesBy fun _ _ => eq_of_keysNullFirst
  refine ⟨fun v => order.idxOf (key v), ?_, fun v hv w hw => ?_⟩
  · rw [ranks, hmap, Option.bind_some, ranksOfKeys, distinctSorted?, horder, Option.map_some, List.map_map]
    rfl
  · rw [← hrel v hv w hw]
    exact hcompares _ (List.mem_map_of_mem hv) _ (List.mem_map_of_mem hw)

/-- A column with ranks holds keys only. -/
theorem isSome_key_of_ranks {rs : List Nat} (h : ranks values = .ok rs) (hv : v ∈ values) : v.key?.isSome := by
  unfold ranks at h
  split at h
  · next hsome =>
    obtain ⟨keys, hkeys, -⟩ := Option.bind_eq_some_iff.1 hsome
    have hmem : v.key? ∈ keys.map some := mapM_eq_some.1 hkeys ▸ List.mem_map_of_mem hv
    obtain ⟨k, -, hk⟩ := List.mem_map.1 hmem
    rw [← hk]
    rfl
  · cases h

end Order

end Compaction
