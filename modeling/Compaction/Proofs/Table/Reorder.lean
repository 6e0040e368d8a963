import Compaction.Proofs.Order.Rows
import Compaction.Proofs.Table.Sound
import Mathlib.Data.List.Perm.Subperm

/-!
# Rewritten partitions

Reordering reads the rows that a filter selects, but replaces all rows in their partitions. What is left are the rows
of other partitions and those that were read (`writeSorted_cases`). So it loses rows unless a partition is read as a
whole and is the same when it is replaced (`subperm_rewritten_iff`, `perm_rewritten_iff`).
-/

namespace Compaction

/-- Whether a row is read under a filter, if there is one. -/
def isRead (filter : Option Filter) (r : Row) : Bool :=
  match filter with
  | none => true
  | some f => match f.selectsRow r with
    | .ok selected => selected
    | .error _ => false

variable {t : Table} {s : Storage} {rows selected : List Row} {filter : Option Filter}
variable {strategy : Strategy} {columns : List String}

namespace Storage

private theorem selectRows_eq_ok {f : Filter} : selectRows f rows = .ok selected ↔
    (∀ r ∈ rows, ∃ isSelected, f.selectsRow r = .ok isSelected) ∧ selected = rows.filter (isRead (some f)) := by
  induction rows generalizing selected with
  | nil => simp [selectRows, eq_comm]
  | cons r rest ih =>
    rw [selectRows, Except.bind_eq_ok, List.forall_mem_cons]
    constructor
    · rintro ⟨isSelected, hr, h⟩
      obtain ⟨others, hrest, h⟩ := Except.bind_eq_ok.1 h
      cases h
      obtain ⟨hall, rfl⟩ := ih.1 hrest
      rw [List.filter_cons, isRead, hr]
      exact ⟨⟨⟨isSelected, rfl⟩, hall⟩, rfl⟩
    · rintro ⟨⟨⟨isSelected, hr⟩, hall⟩, rfl⟩
      refine ⟨isSelected, hr, Except.bind_eq_ok.2 ⟨_, ih.2 ⟨hall, rfl⟩, ?_⟩⟩
      rw [List.filter_cons, isRead, hr]
      rfl

/-- Reading succeeds if the filter can be evaluated on all live rows, and gives those that it selects. -/
theorem readRows_eq_ok (hs : s.Sound t) : s.readRows filter = .ok selected ↔
    (∀ f ∈ filter, ∀ r ∈ s.rowsIn s.manifest, ∃ isSelected, f.selectsRow r = .ok isSelected) ∧
      selected = (s.rowsIn s.manifest).filter (isRead filter) := by
  rw [readRows, files_none, read_eq_ok.2 ⟨hs.manifest.stored, rfl⟩]
  cases filter with
  | none =>
    have hall : (s.rowsIn s.manifest).filter (isRead none) = s.rowsIn s.manifest :=
      List.filter_eq_self.2 fun _ _ => rfl
    rw [hall]
    exact ⟨fun h => ⟨by simp, (Except.ok.inj h).symm⟩, fun h => congrArg Except.ok h.2.symm⟩
  | some f =>
    simp only [Option.mem_some_iff, forall_eq']
    exact selectRows_eq_ok

theorem readRows_eq_filter (hs : s.Sound t) (h : s.readRows filter = .ok selected) :
    selected = (s.rowsIn s.manifest).filter (isRead filter) := ((readRows_eq_ok hs).1 h).2

end Storage

private theorem filter_not_sharesPartition (hp : selected.Perm rows) (others : List Row) :
    others.filter (fun r => ¬ t.SharesPartition selected r) = others.filter (fun r => ¬ t.SharesPartition rows r) := by
  refine List.filter_congr fun r _ => decide_eq_decide.2 (not_congr ⟨fun h => h.perm hp, fun h => h.perm hp.symm⟩)

/-- Rows that were read before are written back in the place of their partitions, or sorting them fails. -/
theorem Table.writeSorted_cases (hs : s.Sound t) (hrows : ∀ r ∈ rows, ∃ keys, t.keysOf? r = some keys)
    (hprints : ∀ r ∈ rows, r.prints) (strategy : Strategy) (columns : List String) :
    (∃ fault, t.sortRows rows strategy columns = .error fault ∧
      t.writeSorted rows strategy columns s = (.error fault, s)) ∨
    ∃ id s', t.writeSorted rows strategy columns s = (.ok id, s') ∧ s'.Sound t ∧ (s'.rowsIn s'.manifest).Perm
      ((s.rowsIn s.manifest).filter (fun r => ¬ t.SharesPartition rows r) ++ rows) := by
  rw [writeSorted, Effect.ofExcept_bind]
  cases hsort : t.sortRows rows strategy columns with
  | error fault => exact Or.inl ⟨fault, rfl, rfl⟩
  | ok inOrder =>
    have hp := sortRows_perm hsort
    refine Or.inr ?_
    rcases t.overwrite_cases hs inOrder "sort-compact" with
      ⟨fault, hg, -⟩ | ⟨hnot, -⟩ | ⟨hnil, e⟩ | ⟨id, s', kept, e, hpub, hkept⟩
    · -- rows that were read have a partition, so they can be grouped
      obtain ⟨groups, hgroups⟩ := exists_group (fun r hr => hrows r (hp.subset hr)) fun _ _ => ⟨0, rfl⟩
      rw [hg] at hgroups
      cases hgroups
    · exact absurd (fun r hr => hprints r (hp.subset hr)) hnot
    · subst hnil
      obtain rfl := hp.symm.eq_nil
      refine ⟨none, s, e, hs, .of_eq ?_⟩
      rw [List.append_nil]
      exact (List.filter_eq_self.2 fun r _ => by simp [SharesPartition]).symm
    · refine ⟨some id, s', e, hpub.sound, (hpub.rowsIn hs).trans ?_⟩
      rw [hkept, filter_not_sharesPartition hp]
      exact hp.append_left _

/-- Whatever is written back, a storage stays sound. -/
theorem Table.sound_writeSorted (hs : s.Sound t) (rows : List Row) (strategy : Strategy) (columns : List String) :
    (t.writeSorted rows strategy columns s).2.Sound t := by
  rw [writeSorted, Effect.ofExcept_bind]
  cases t.sortRows rows strategy columns with
  | error fault => exact hs
  | ok inOrder => exact sound_overwrite hs rfl

/-- Writing back all rows, or failing to, keeps them. -/
theorem Table.writeSorted_keeps_rows (t : Table) (hs : s.Sound t) (hrows : rows.Perm (s.rowsIn s.manifest))
    (strategy : Strategy) (columns : List String) :
    ((t.writeSorted rows strategy columns s).2.rowsIn (t.writeSorted rows strategy columns s).2.manifest).Perm
      (s.rowsIn s.manifest) := by
  have hplaced : ∀ r ∈ rows, ∃ keys, t.keysOf? r = some keys := fun r hr =>
    hs.manifest.exists_keysOf? (hrows.subset hr)
  have hprints : ∀ r ∈ rows, r.prints := fun r hr => hs.manifest.prints_of_mem_rowsIn r (hrows.subset hr)
  rcases writeSorted_cases hs hplaced hprints strategy columns with ⟨fault, -, e⟩ | ⟨id, s', e, -, hleft⟩
  · rw [e]
  · -- every live row is among those that are written back, so none is left beside them
    have hnone : (s.rowsIn s.manifest).filter (fun r => ¬ t.SharesPartition rows r) = [] := by
      rw [List.filter_eq_nil_iff]
      intro r hr
      simpa using sharesPartition_of_mem (hrows.symm.subset hr)
    rw [hnone, List.nil_append] at hleft
    rw [e]
    exact hleft.trans hrows

/-- Reordering fails before anything is written, or the table has no assigned buckets and it writes back what it has
read. -/
theorem Table.reorder_cases (t : Table) (strategy : Strategy) (columns : List String) (filter : Option Filter)
    (s : Storage) : (∃ fault, t.reorder strategy columns filter s = (.error fault, s)) ∨
      (t.mode = .unaware ∧ ∃ rows, s.readRows filter = .ok rows ∧
        t.reorder strategy columns filter s = t.writeSorted rows strategy columns s) := by
  rw [reorder]
  by_cases hmode : t.mode = .unaware
  · simp only [hmode, ne_eq, not_true, if_false]
    rw [Effect.ofRead_bind]
    cases s.readRows filter with
    | error fault => exact Or.inl ⟨fault, rfl⟩
    | ok rows => exact Or.inr ⟨trivial, rows, rfl, rfl⟩
  · simp only [hmode, ne_eq, not_false_iff, if_true]
    exact Or.inl ⟨_, rfl⟩

/-- Reordering succeeds if a table without assigned buckets can be read, the rows sorted and then written back. -/
theorem Table.reorder_eq_ok {id : Option Nat} {s' : Storage} :
    t.reorder strategy columns filter s = (.ok id, s') ↔ t.mode = .unaware ∧ ∃ rows inOrder,
      s.readRows filter = .ok rows ∧ t.sortRows rows strategy columns = .ok inOrder ∧
        t.overwrite inOrder "sort-compact" s = (.ok id, s') := by
  constructor
  · intro h
    rcases t.reorder_cases strategy columns filter s with ⟨fault, e⟩ | ⟨hmode, rows, hread, e⟩
    · rw [h] at e
      cases e
    · rw [e, writeSorted, Effect.ofExcept_bind] at h
      cases hsort : t.sortRows rows strategy columns with
      | error fault =>
        rw [hsort] at h
        cases h
      | ok inOrder =>
        rw [hsort] at h
        exact ⟨hmode, rows, inOrder, hread, hsort, h⟩
  · rintro ⟨hmode, rows, inOrder, hread, hsort, h⟩
    simp only [reorder, hmode, ne_eq, not_true, if_false]
    rw [Effect.ofRead_bind, hread]
    dsimp only
    rw [writeSorted, Effect.ofExcept_bind, hsort]
    exact h

/-! ### Lost rows -/

private theorem subperm_filter_iff {α : Type} {p : α → Bool} {xs ys : List α} :
    (xs ++ ys).Subperm (xs.filter p) ↔ ys = [] ∧ ∀ x ∈ xs, p x := by
  constructor
  · intro h
    have hle := h.length_le
    have hfilter := List.length_filter_le p xs
    rw [List.length_append] at hle
    exact ⟨List.length_eq_zero_iff.1 (by omega), List.length_filter_eq_length_iff.1 (by omega)⟩
  · rintro ⟨rfl, h⟩
    rw [List.append_nil, List.filter_eq_self.2 h]

/-- The rows that were read are among those of their partitions. -/
private theorem perm_filter_sharesPartition {old : List Row} (hread : rows.Perm (old.filter (isRead filter))) :
    rows.Perm ((old.filter fun r => t.SharesPartition rows r).filter (isRead filter)) := by
  rw [List.filter_filter]
  refine hread.trans (.of_eq (List.filter_congr fun r hr => ?_))
  cases hf : isRead filter r with
  | false => rfl
  | true =>
    have : r ∈ rows := hread.mem_iff.2 (List.mem_filter.2 ⟨hr, hf⟩)
    simp [Table.sharesPartition_of_mem this]

private theorem perm_append_sharesPartition (t : Table) (rows all : List Row) :
    all.Perm (all.filter (fun r => ¬ t.SharesPartition rows r) ++ all.filter fun r => t.SharesPartition rows r) := by
  have h := List.filter_append_perm (fun r => decide (t.SharesPartition rows r)) all
  simp only [decide_not]
  exact h.symm.trans List.perm_append_comm

variable {old new left : List Row}

/-- No row is lost exactly if none was added to a partition that is replaced, and all rows that were in one were
read. -/
theorem subperm_rewritten_iff (hread : rows.Perm (old.filter (isRead filter)))
    (hleft : left.Perm ((old ++ new).filter (fun r => ¬ t.SharesPartition rows r) ++ rows)) :
    (old ++ new).Subperm left ↔
      (∀ r ∈ new, ¬ t.SharesPartition rows r) ∧ ∀ r ∈ old, t.SharesPartition rows r → isRead filter r := by
  have hrows := perm_filter_sharesPartition (t := t) hread
  rw [hleft.subperm_left, (perm_append_sharesPartition t rows (old ++ new)).subperm_right,
    List.subperm_append_left, hrows.subperm_left, List.filter_append, subperm_filter_iff]
  simp [List.filter_eq_nil_iff]

theorem perm_rewritten_iff (hread : rows.Perm (old.filter (isRead filter)))
    (hleft : left.Perm (old.filter (fun r => ¬ t.SharesPartition rows r) ++ rows)) :
    left.Perm old ↔ ∀ r ∈ old, t.SharesPartition rows r → isRead filter r := by
  constructor
  · intro h
    rw [← List.append_nil old] at hleft
    refine ((subperm_rewritten_iff hread hleft).1 ?_).2
    rw [List.append_nil]
    exact h.symm.subperm
  · intro h
    have hall : (old.filter fun r => t.SharesPartition rows r).filter (isRead filter) =
        old.filter fun r => t.SharesPartition rows r := by
      rw [List.filter_eq_self]
      intro r hr
      rw [List.mem_filter, decide_eq_true_iff] at hr
      exact h r hr.1 hr.2
    have hrows := perm_filter_sharesPartition (t := t) hread
    rw [hall] at hrows
    exact hleft.trans ((hrows.append_left _).trans (perm_append_sharesPartition t rows old).symm)

end Compaction
