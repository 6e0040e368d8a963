import Compaction.Proofs.Order.Dense
import Compaction.Proofs.Order.Placement

/-!
# Ranks as a segment of the numbers

The ranks of a column are the numbers below the count of its different values, in the order of the values
(`DenseRanking`, `ranks_onto_segment`), and the rank of a value is the count of different values before it
(`ranks_eq_counts`). Equal values are told by their keys (`key?_eq_iff`).
-/

namespace Compaction.Order

variable {values : List Value} {rank : Value → Nat} {v w : Value}

/-- Values that are ordered totally are the same key if neither is before the other. -/
theorem key?_eq_iff (hordered : TotallyOrdered values) (hkeys : ∀ v ∈ values, v.key?.isSome) (hv : v ∈ values)
    (hw : w ∈ values) : v.key? = w.key? ↔ v.relationNullsFirst w = .same := by
  obtain ⟨k, hk⟩ := Option.isSome_iff_exists.1 (hkeys v hv)
  obtain ⟨l, hl⟩ := Option.isSome_iff_exists.1 (hkeys w hw)
  constructor
  · intro hsame
    have hself := hordered.nullsFirst.self hv
    rw [relationNullsFirst_of_key hk hk] at hself
    rwa [relationNullsFirst_of_key hk (hsame ▸ hk)]
  · intro hsame
    rw [relationNullsFirst_of_key hk hl] at hsame
    rw [hk, hl, eq_of_keysNullFirst hsame]

/-- Whether numbers are dense ranks of the values of a column: one for each value, the same or smaller as the values
are, nulls before all others, and all numbers below the count of different values. -/
structure DenseRanking (values : List Value) (rs : List Nat) : Prop where
  length : rs.length = values.length
  eq_iff : ∀ i j : Fin values.length,
    rs.getD i 0 = rs.getD j 0 ↔ values[i].relationNullsFirst values[j] = .same
  lt_iff : ∀ i j : Fin values.length,
    rs.getD i 0 < rs.getD j 0 ↔ values[i].relationNullsFirst values[j] = .before
  segment : rs.toFinset = Finset.range (values.map Value.key?).toFinset.card

instance {rs : List Nat} : Decidable (DenseRanking values rs) :=
  decidable_of_iff (rs.length = values.length ∧
    (∀ i j : Fin values.length, rs.getD i 0 = rs.getD j 0 ↔ values[i].relationNullsFirst values[j] = .same) ∧
    (∀ i j : Fin values.length, rs.getD i 0 < rs.getD j 0 ↔ values[i].relationNullsFirst values[j] = .before) ∧
    rs.toFinset = Finset.range (values.map Value.key?).toFinset.card)
    ⟨fun h => ⟨h.1, h.2.1, h.2.2.1, h.2.2.2⟩, fun h => ⟨h.length, h.eq_iff, h.lt_iff, h.segment⟩⟩

/-- The number between the two is left out. -/
example : ¬ DenseRanking [.text "b", .null] [2, 0] := by decide

private theorem denseRanking_map (hordered : TotallyOrdered values) (hkeys : ∀ v ∈ values, v.key?.isSome)
    (hdense : Dense rank values) (hcompares : ComparesBy Value.relationNullsFirst rank values) :
    DenseRanking values (values.map rank) := by
  have hget : ∀ i : Fin values.length, (values.map rank).getD i 0 = rank values[i] := by
    intro i
    simp
  have hcard : (values.map rank).toFinset.card = (values.map Value.key?).toFinset.card :=
    card_toFinset_map fun v hv w hw => (hcompares.same_iff hv hw).symm.trans (key?_eq_iff hordered hkeys hv hw).symm
  refine ⟨List.length_map _, ?_, ?_, ?_⟩
  · intro i j
    rw [hget, hget]
    exact (hcompares.same_iff (List.getElem_mem i.isLt) (List.getElem_mem j.isLt)).symm
  · intro i j
    rw [hget, hget]
    exact (hcompares.before_iff (List.getElem_mem i.isLt) (List.getElem_mem j.isLt)).symm
  · rw [← hcard]
    exact hdense.toFinset_eq_range

/-- A column with a value that is no key has no ranks. -/
private theorem ranks_eq_badType (hkeys : ¬ ∀ v ∈ values, v.key?.isSome) : ranks values = .error (.bare .badType) := by
  cases hr : ranks values with
  | ok rs => exact absurd (fun v hv => isSome_key_of_ranks hr hv) hkeys
  | error f => rw [(ranks_eq_error hr).1]

/-- The rank of a value is the number of different values before it. -/
theorem ranks_eq_counts (hordered : TotallyOrdered values) (hkeys : ∀ v ∈ values, v.key?.isSome) :
    ranks values = .ok (values.map fun v =>
      ((values.filter fun w => w.relationNullsFirst v = .before).map Value.key?).toFinset.card) := by
  obtain ⟨rank, hranks, hcompares⟩ := exists_ranks hordered hkeys
  rw [hranks]
  refine congrArg Except.ok (List.map_congr_left fun v hv => ?_)
  rw [(dense_ranks hranks).eq_card hcompares hv]
  refine card_toFinset_map fun u hu w hw => ?_
  have hu := List.mem_of_mem_filter hu
  have hw := List.mem_of_mem_filter hw
  exact (hcompares.same_iff hu hw).symm.trans (key?_eq_iff hordered hkeys hu hw).symm

/-- Values that are ordered totally, nulls apart, have dense ranks if they are keys and none otherwise, and the ranks of
columns that rows are sorted by fit into the bits for the largest one. -/
theorem ranks_onto_segment (hordered : TotallyOrdered values) :
    ((∀ v ∈ values, v.key?.isSome) → ∃ rs, ranks values = .ok rs ∧ DenseRanking values rs) ∧
    ((¬ ∀ v ∈ values, v.key?.isSome) → ranks values = .error (.bare .badType)) ∧
    ∀ (rows : List Row) (columns : List String), (∀ c ∈ columns, TotallyOrdered (rows.map (·.get c))) →
      Keyed columns rows → ∃ columnRanks, columns.mapM (fun c => ranks (rows.map (·.get c))) = .ok columnRanks ∧
        ∀ rs ∈ columnRanks, ∀ n ∈ rs, n < 2 ^ bitsFor (largest columnRanks) := by
  refine ⟨?_, ranks_eq_badType, ?_⟩
  · intro hkeys
    obtain ⟨rank, hranks, hcompares⟩ := exists_ranks hordered hkeys
    exact ⟨_, hranks, denseRanking_map hordered hkeys (dense_ranks hranks) hcompares⟩
  · intro rows columns hcolumns hkeyed
    obtain ⟨rank, -, hranks⟩ := exists_columnRanks hcolumns hkeyed
    refine ⟨_, hranks, ?_⟩
    intro rs hrs n hn
    exact lt_pow_bits_largest hrs hn

/-- Texts have ranks after null, and five ranks take three bits. Lists are ordered as well, but they have no ranks. -/
theorem ranks_onto_segment_of_lists :
    let texts : List Value := [.text "b", .null, .text "a", .text "", .text "a"]
    let rows : List Row := [[("v", .text "c")], [("v", .text "b")], [("v", .text "a")], [("v", .text "")], []]
    let lists : List Value := [.list [.text "b"], .list [.text "a"]]
    (TotallyOrdered texts ∧ ranks texts = .ok [3, 0, 2, 1, 2] ∧ DenseRanking texts [3, 0, 2, 1, 2]) ∧
    (["v"].mapM (fun c => ranks (rows.map (·.get c))) = .ok [[4, 3, 2, 1, 0]] ∧
      bitsFor (largest [[4, 3, 2, 1, 0]]) = 3 ∧ ∀ n ∈ [4, 3, 2, 1, 0], n < 2 ^ 3) ∧
    TotallyOrdered lists ∧ ranks lists = .error (.bare .badType) := by
  intro texts rows lists
  have htexts : TotallyOrdered texts := by decide
  have hlists : TotallyOrdered lists := by decide
  have htextRanks : ranks texts = .ok [3, 0, 2, 1, 2] := by
    rw [ranks_eq_counts htexts (by decide)]
    exact congrArg Except.ok (by decide)
  have hrowRanks : ["v"].mapM (fun c => ranks (rows.map (·.get c))) = .ok [[4, 3, 2, 1, 0]] := rfl
  obtain ⟨hranked, -, hfit⟩ := ranks_onto_segment htexts
  refine ⟨⟨htexts, htextRanks, ?_⟩, ?_, hlists, (ranks_onto_segment hlists).2.1 (by decide)⟩
  · obtain ⟨rs, hranks, hdense⟩ := hranked (by decide)
    obtain rfl : [3, 0, 2, 1, 2] = rs := Except.ok.inj (htextRanks.symm.trans hranks)
    exact hdense
  · obtain ⟨columnRanks, hranks, hbelow⟩ := hfit rows ["v"] (by decide) (by decide)
    obtain rfl : [[4, 3, 2, 1, 0]] = columnRanks := Except.ok.inj (hrowRanks.symm.trans hranks)
    exact ⟨hrowRanks, rfl, hbelow _ (List.mem_singleton_self _)⟩

end Compaction.Order
