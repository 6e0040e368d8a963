import Compaction.Proofs.Order.Ranking
import Mathlib.Data.Fintype.EquivFin
import Mathlib.Data.Nat.Find

/-!
# Dense ranks

Dense ranks leave out no number (`Dense`), so they are all numbers below a bound (`Dense.toFinset_eq_range`). Each of
them counts the different elements before (`Dense.eq_card`), so they are determined by how the elements compare
(`Dense.eq`). Hence the ranks of a column do not depend on the order of its values (`ranks_perm`), nor on the values
themselves (`ranks_map`).
-/

namespace Compaction.Order

variable {α β γ : Type} {rel : α → α → Relation} {f g : α → Nat} {x : α} {xs ys : List α} {values values' : List Value}
  {rank : Value → Nat} {m : Value → Value}

/-- Whether every number below a rank is a rank. -/
def Dense (f : α → Nat) (xs : List α) : Prop := ∀ x ∈ xs, ∀ n < f x, ∃ y ∈ xs, f y = n

theorem Dense.perm (h : Dense f xs) (hp : xs.Perm ys) : Dense f ys := by
  intro x hx n hn
  obtain ⟨y, hy, rfl⟩ := h x (hp.symm.subset hx) n hn
  exact ⟨y, hp.subset hy, rfl⟩

/-- Two maps that tell the same elements apart take equally many values. -/
theorem card_toFinset_map [DecidableEq β] [DecidableEq γ] {g : α → β} {h : α → γ} {xs : List α}
    (hsame : ∀ x ∈ xs, ∀ y ∈ xs, g x = g y ↔ h x = h y) :
    (xs.map g).toFinset.card = (xs.map h).toFinset.card := by
  induction xs with
  | nil => rfl
  | cons x rest ih =>
    have hrest : (rest.map g).toFinset.card = (rest.map h).toFinset.card :=
      ih fun y hy z hz => hsame y (List.mem_cons_of_mem x hy) z (List.mem_cons_of_mem x hz)
    have hmem : g x ∈ rest.map g ↔ h x ∈ rest.map h := by
      rw [List.mem_map, List.mem_map]
      refine exists_congr fun y => and_congr_right fun hy => ?_
      exact hsame y (List.mem_cons_of_mem x hy) x List.mem_cons_self
    rw [List.map_cons, List.map_cons, List.toFinset_cons, List.toFinset_cons, Finset.card_insert_eq_ite,
      Finset.card_insert_eq_ite, hrest]
    simp only [List.mem_toFinset, hmem]

theorem Dense.toFinset_eq_range (h : Dense f xs) :
    (xs.map f).toFinset = Finset.range (xs.map f).toFinset.card := by
  -- the bound is the first number that is not one of them: none beyond it is either, as it would leave that one out
  have hmissing : ∃ n, n ∉ (xs.map f).toFinset := Infinite.exists_notMem_finset _
  have hrange : (xs.map f).toFinset = Finset.range (Nat.find hmissing) := by
    ext n
    rw [Finset.mem_range, Nat.lt_find_iff]
    constructor
    · intro hn m hm
      rw [not_not, List.mem_toFinset, List.mem_map]
      obtain ⟨x, hx, rfl⟩ := List.mem_map.1 (List.mem_toFinset.1 hn)
      rcases Nat.lt_or_eq_of_le hm with hlt | rfl
      · exact h x hx m hlt
      · exact ⟨x, hx, rfl⟩
    · intro hbelow
      exact not_not.1 (hbelow n le_rfl)
  rw [hrange, Finset.card_range]

/-- A dense number that compares as the elements do counts the numbers of the elements before. -/
theorem Dense.eq_card (h : Dense f xs) (hcompares : ComparesBy rel f xs) (hx : x ∈ xs) :
    f x = ((xs.filter fun y => rel y x = .before).map f).toFinset.card := by
  have hbelow : ((xs.filter fun y => rel y x = .before).map f).toFinset = Finset.range (f x) := by
    ext n
    rw [List.mem_toFinset, List.mem_map, Finset.mem_range]
    constructor
    · rintro ⟨y, hy, rfl⟩
      obtain ⟨hy, hbefore⟩ := List.mem_filter.1 hy
      exact (hcompares.before_iff hy hx).1 (of_decide_eq_true hbefore)
    · intro hn
      obtain ⟨y, hy, rfl⟩ := h x hx n hn
      exact ⟨y, List.mem_filter.2 ⟨hy, decide_eq_true ((hcompares.before_iff hy hx).2 hn)⟩, rfl⟩
  rw [hbelow, Finset.card_range]

/-- Dense numbers are determined by how the elements compare. -/
theorem Dense.eq (hf : Dense f xs) (hg : Dense g xs) (hcf : ComparesBy rel f xs) (hcg : ComparesBy rel g xs) :
    ∀ x ∈ xs, f x = g x := by
  intro x hx
  rw [hf.eq_card hcf hx, hg.eq_card hcg hx]
  apply card_toFinset_map
  intro y hy z hz
  have hy := List.mem_of_mem_filter hy
  have hz := List.mem_of_mem_filter hz
  exact (hcf.same_iff hy hz).symm.trans (hcg.same_iff hy hz)

/-! ### Ranks of a column -/

/-- The ranks of a column are dense: each stands for one of its keys. -/
theorem dense_ranks (h : ranks values = .ok (values.map rank)) : Dense rank values := by
  obtain ⟨key, -, hkeys⟩ := exists_keys fun v hv => isSome_key_of_ranks h hv
  rw [ranks, hkeys, Option.bind_some, ranksOfKeys] at h
  cases horder : distinctSorted? (values.map key) with
  | none =>
    rw [horder] at h
    cases h
  | some order =>
    rw [horder, Option.map_some, List.map_map] at h
    have hrank : ∀ v ∈ values, order.idxOf (key v) = rank v := List.map_inj_left.1 (Except.ok.inj h)
    have hperm : order.Perm (distinctBy id (values.map key)) := sortBy?_perm horder
    have hnodup : order.Nodup := hperm.nodup_iff.2 (nodup_distinctBy_id _)
    intro v hv n hn
    have hlength : n < order.length := by
      rw [← hrank v hv] at hn
      exact hn.trans_le List.idxOf_le_length
    obtain ⟨w, hw, hkw⟩ := List.mem_map.1 (Filter.mem_distinctBy_id.1 (hperm.subset (List.getElem_mem hlength)))
    refine ⟨w, hw, ?_⟩
    rw [← hrank w hw, hkw]
    exact hnodup.idxOf_getElem n hlength

/-- The ranks of a column are the only dense numbers that compare as its values do. -/
private theorem ranks_eq_of_dense (h : TotallyOrdered values) (hkeys : ∀ v ∈ values, v.key?.isSome)
    (hd : Dense rank values)
    (hc : ComparesBy Value.relationNullsFirst rank values) : ranks values = .ok (values.map rank) := by
  obtain ⟨rank', hr, hc'⟩ := exists_ranks h hkeys
  rw [hr]
  exact congrArg Except.ok (List.map_congr_left ((dense_ranks hr).eq hd hc' hc))

/-- The rank of a value does not depend on where it stands. -/
theorem ranks_perm (h : TotallyOrdered values) (hr : ranks values = .ok (values.map rank))
    (hc : ComparesBy Value.relationNullsFirst rank values) (hp : values.Perm values') :
    ranks values' = .ok (values'.map rank) := by
  refine ranks_eq_of_dense (h.subset hp.symm.subset) (fun v hv => isSome_key_of_ranks hr (hp.symm.subset hv))
    ((dense_ranks hr).perm hp) (hc.subset hp.symm.subset)

/-- Only how the values of a column compare counts for their ranks. -/
theorem ranks_map (h : TotallyOrdered values) (h' : TotallyOrdered (values.map m))
    (hkeys : ∀ v ∈ values, v.key?.isSome) (hkeys' : ∀ v ∈ values.map m, v.key?.isSome)
    (hm : ∀ v ∈ values, ∀ w ∈ values, (m v).relationNullsFirst (m w) = v.relationNullsFirst w) :
    ranks (values.map m) = ranks values := by
  obtain ⟨rank, hr, hc⟩ := exists_ranks h' hkeys'
  have hdense : Dense (rank ∘ m) values := by
    intro v hv n hn
    obtain ⟨w, hw, hwn⟩ := dense_ranks hr (m v) (List.mem_map_of_mem hv) n hn
    obtain ⟨u, hu, rfl⟩ := List.mem_map.1 hw
    exact ⟨u, hu, hwn⟩
  have hcompares : ComparesBy Value.relationNullsFirst (rank ∘ m) values := by
    intro v hv w hw
    rw [← hm v hv w hw]
    exact hc (m v) (List.mem_map_of_mem hv) (m w) (List.mem_map_of_mem hw)
  rw [hr, List.map_map, ranks_eq_of_dense h hkeys hdense hcompares]

end Compaction.Order
