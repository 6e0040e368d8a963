import Compaction.Proofs.Table.Places
import Compaction.Proofs.Table.Proper
import Compaction.Proofs.Table.Reorder

/-!
# Replaced partitions

Overwriting puts one new file with the given rows in the place of all buckets of each of their partitions, and leaves
the buckets of all other partitions as they are (`Storage.Overwrites`, `overwrite_eq_ok`). What a filter selected and
was written back, it selects again (`Overwrites.filter_isRead`).
-/

namespace Compaction

variable {t : Table} {s s' : Storage} {m : Manifest} {rows : List Row} {groups : List Table.Group} {user : String}

/-- Whether a storage has come to one more snapshot, with one new file of its rows for each partition that has some of
these rows. -/
structure Storage.Overwrites (t : Table) (user : String) (s : Storage) (rows : List Row) (s' : Storage) : Prop where
  snapshots : s'.snapshots = s.snapshots ++ [⟨s.snapshots.length + 1, user, "OVERWRITE", s'.manifest⟩]
  extends_ : s.Extends s'
  replaced : ∀ r ∈ rows, ∀ keys, t.keysOf? r = some keys → ∃ p file,
    p.keys = keys ∧ (∃ r' ∈ rows, t.partitionOf r' = .ok p) ∧
      s'.manifest.filter (·.partition.keys = keys) = [⟨p, 0, [file]⟩] ∧ ¬ s.Stores file ∧
        s'.read [file] = .ok (rows.filter (t.keysOf? · = some keys))
  kept : ∀ keys, some keys ∉ rows.map t.keysOf? →
    s'.manifest.filter (·.partition.keys = keys) = s.manifest.filter (·.partition.keys = keys)

namespace Storage.Overwrites

variable {keys : List (Option Key)} {p : Partition} {filter : Option Filter}

private theorem exists_file (h : s.Overwrites t user rows s') (hk : some p.keys ∈ rows.map t.keysOf?) :
    ∃ file, s'.files (some p) none = [file] ∧ ¬ s.Stores file ∧
      s'.read [file] = .ok (rows.filter (t.keysOf? · = some p.keys)) := by
  obtain ⟨r, hr, hkeys⟩ := List.mem_map.1 hk
  obtain ⟨p', file, -, -, hone, hnew, hread⟩ := h.replaced r hr p.keys hkeys
  refine ⟨file, ?_, hnew, hread⟩
  rw [files_partition, hone]
  rfl

theorem files_of_notMem (h : s.Overwrites t user rows s') (hk : some p.keys ∉ rows.map t.keysOf?)
    (bucket : Option Int) : s'.files (some p) bucket = s.files (some p) bucket := by
  rw [files_partition, files_partition, h.kept p.keys hk]

/-- A partition that some of the rows belong to has just these. -/
private theorem filter_rowsIn (h : s.Overwrites t user rows s') (hs' : s'.Sound t)
    (hk : some keys ∈ rows.map t.keysOf?) :
    (s'.rowsIn s'.manifest).filter (t.keysOf? · = some keys) = rows.filter (t.keysOf? · = some keys) := by
  obtain ⟨r, hr, hkeys⟩ := List.mem_map.1 hk
  obtain ⟨p, -, rfl, -⟩ := h.replaced r hr keys hkeys
  obtain ⟨file, hfiles, -, hread⟩ := h.exists_file hk
  rw [← hfiles, hs'.read_partition] at hread
  exact Except.ok.inj hread

/-- A partition that none of the rows belongs to has the rows it had. -/
private theorem filter_rowsIn_of_notMem (h : s.Overwrites t user rows s') (hs : s.Sound t) (hs' : s'.Sound t)
    (hk : some keys ∉ rows.map t.keysOf?) :
    (s'.rowsIn s'.manifest).filter (t.keysOf? · = some keys) =
      (s.rowsIn s.manifest).filter (t.keysOf? · = some keys) := by
  have hsame := hs.manifest.rowsIn_filter fun k => decide (k = some keys)
  have hsame' := hs'.manifest.rowsIn_filter fun k => decide (k = some keys)
  simp only [Option.some.injEq] at hsame hsame'
  rw [← hsame, ← hsame', h.kept keys hk]
  refine h.extends_.flatMap_rowsOf fun f hf => hs.manifest.stored f ?_
  exact (List.filter_sublist.flatMap _).subset hf

/-- A partition that some of the rows belong to has a new file. -/
theorem notMem_of_files_eq (h : s.Overwrites t user rows s') (hs : s.Sound t)
    (hfiles : s'.files (some p) none = s.files (some p) none) : some p.keys ∉ rows.map t.keysOf? := by
  intro hk
  obtain ⟨file, hone, hnew, -⟩ := h.exists_file hk
  have hold : file ∈ s.files (some p) none := by
    rw [← hfiles, hone]
    exact List.mem_singleton_self file
  rw [files_partition] at hold
  refine hnew (hs.manifest.stored file ?_)
  exact ((List.filter_sublist.trans List.filter_sublist).flatMap _).subset hold

/-- Writing the same rows again changes no partition if their order in each one is the same. -/
theorem filter_rowsIn_again {s'' : Storage} {rows' : List Row} (h : s.Overwrites t user rows s')
    (h' : s'.Overwrites t user rows' s'') (hs' : s'.Sound t) (hs'' : s''.Sound t) (hp : rows'.Perm rows)
    (hparts : rows'.filter (t.keysOf? · = some keys) = rows.filter (t.keysOf? · = some keys)) :
    (s''.rowsIn s''.manifest).filter (t.keysOf? · = some keys) =
      (s'.rowsIn s'.manifest).filter (t.keysOf? · = some keys) := by
  have hmem : some keys ∈ rows'.map t.keysOf? ↔ some keys ∈ rows.map t.keysOf? := (hp.map _).mem_iff
  by_cases hk : some keys ∈ rows.map t.keysOf?
  · rw [h.filter_rowsIn hs' hk, h'.filter_rowsIn hs'' (hmem.2 hk), hparts]
  · exact h'.filter_rowsIn_of_notMem hs' hs'' fun hk' => hk (hmem.1 hk')

/-- If the rows are what a filter selects, it selects the same ones again, and in each partition they stand in the order
in which they were written. -/
theorem filter_isRead (h : s.Overwrites t user rows s') (hs : s.Sound t) (hs' : s'.Sound t)
    (hp : rows.Perm ((s.rowsIn s.manifest).filter (isRead filter))) (k : Option (List (Option Key))) :
    ((s'.rowsIn s'.manifest).filter (isRead filter)).filter (fun r => t.keysOf? r = k) =
      rows.filter fun r => t.keysOf? r = k := by
  have hread : ∀ r ∈ rows, r ∈ s.rowsIn s.manifest ∧ isRead filter r := fun r hr => List.mem_filter.1 (hp.subset hr)
  cases k with
  | none =>
    -- every row belongs to a partition
    have hnone : ∀ xs : List Row, (∀ r ∈ xs, ∃ keys, t.keysOf? r = some keys) →
        xs.filter (fun r => t.keysOf? r = none) = [] := by
      intro xs hxs
      rw [List.filter_eq_nil_iff]
      intro r hr
      obtain ⟨keys, hkeys⟩ := hxs r hr
      simp [hkeys]
    rw [hnone _ fun r hr => hs'.manifest.exists_keysOf? (List.mem_filter.1 hr).1,
      hnone _ fun r hr => hs.manifest.exists_keysOf? (hread r hr).1]
  | some keys =>
    rw [List.filter_comm]
    by_cases hk : some keys ∈ rows.map t.keysOf?
    · rw [h.filter_rowsIn hs' hk, List.filter_eq_self]
      exact fun r hr => (hread r (List.mem_filter.1 hr).1).2
    · have hnil : rows.filter (fun r => t.keysOf? r = some keys) = [] := by
        rw [List.filter_eq_nil_iff]
        intro r hr hkeys
        exact hk (List.mem_map.2 ⟨r, hr, of_decide_eq_true hkeys⟩)
      rw [h.filter_rowsIn_of_notMem hs hs' hk, List.filter_comm, hnil]
      exact ((hp.filter _).symm.trans (.of_eq hnil)).eq_nil

/-- Every live row was live before. -/
theorem mem_rowsIn (h : s.Overwrites t user rows s') (hs : s.Sound t) (hs' : s'.Sound t)
    (hp : ∀ r ∈ rows, r ∈ s.rowsIn s.manifest) {r : Row} (hr : r ∈ s'.rowsIn s'.manifest) :
    r ∈ s.rowsIn s.manifest := by
  obtain ⟨keys, hkeys⟩ := hs'.manifest.exists_keysOf? hr
  have hpart : r ∈ (s'.rowsIn s'.manifest).filter (t.keysOf? · = some keys) :=
    List.mem_filter.2 ⟨hr, decide_eq_true hkeys⟩
  by_cases hk : some keys ∈ rows.map t.keysOf?
  · rw [h.filter_rowsIn hs' hk] at hpart
    exact hp r (List.mem_filter.1 hpart).1
  · rw [h.filter_rowsIn_of_notMem hs hs' hk] at hpart
    exact (List.mem_filter.1 hpart).1

end Storage.Overwrites

namespace Manifest

private theorem filter_without {replaced : List (List (Option Key))} {keys : List (Option Key)} (h : keys ∉ replaced) :
    (m.without replaced).filter (·.partition.keys = keys) = m.filter (·.partition.keys = keys) := by
  rw [without, List.filter_filter]
  refine List.filter_congr fun e _ => ?_
  by_cases he : e.partition.keys = keys
  · simp [he, h]
  · simp [he]

private theorem filter_without_of_mem {replaced : List (List (Option Key))} {keys : List (Option Key)}
    (h : keys ∈ replaced) : (m.without replaced).filter (·.partition.keys = keys) = [] := by
  rw [List.filter_eq_nil_iff]
  intro e he hk
  have hout := (List.mem_filter.1 he).2
  rw [of_decide_eq_true hk] at hout
  simp [h] at hout

end Manifest

namespace Table

private theorem Grouped.bucket_eq_zero (hg : t.Grouped (fun _ => .ok 0) rows groups) {g : Group} (h : g ∈ groups) :
    g.bucket = 0 := by
  obtain ⟨r, hr⟩ := List.exists_mem_of_ne_nil _ (hg.nonempty g h)
  exact (Except.ok.inj (hg.placed g h r hr).2).symm

/-- The files of groups are listed after the buckets that are kept, and no bucket is empty. -/
private theorem filled_replacements (h : s.manifest.Proper) (replaced : List (List (Option Key)))
    (written : List (Group × DataFile)) :
    Manifest.filled (s.manifest.without replaced ++ written.map replacement) =
      s.manifest.without replaced ++ written.map replacement := by
  refine List.filter_eq_self.2 fun e he => ?_
  rcases List.mem_append.1 he with he | he
  · simpa using h.nonempty e ((s.manifest.without_sublist replaced).subset he)
  · obtain ⟨x, -, rfl⟩ := List.mem_map.1 he
    rfl

private theorem overwrites_of_group (hs : s.Sound t) (hproper : s.manifest.Proper)
    (h : t.group (fun _ => .ok 0) rows = .ok groups) (user : String) :
    s.Overwrites t user rows ((storeGroups groups s).2.withSnapshot user "OVERWRITE" (Manifest.filled
      (s.manifest.without (groups.map fun g => g.partition.keys) ++ (storeGroups groups s).1.map replacement))) := by
  have hg := grouped_of_group h
  have hw := writes_storeGroups groups hs.numbered
  have hrows := rowsOf_storeGroups groups hs.numbered
  have hfst := fst_storeGroups groups s
  have hkeys := keys_replacements hg hfst
  rw [filled_replacements hproper]
  generalize (storeGroups groups s).1 = written, (storeGroups groups s).2 = s₁ at hw hrows hfst hkeys ⊢
  refine ⟨?_, hw.extends_, fun r hr keys hk => ?_, fun keys hnone => ?_⟩
  · rw [Storage.manifest_withSnapshot, Storage.withSnapshot, hw.snapshots]
  · obtain ⟨g, hmem, rfl⟩ := List.mem_map.1 (hg.mem_keys_iff.2 (List.mem_map.2 ⟨r, hr, hk⟩))
    obtain ⟨r', hr', hp⟩ := exists_partitionOf_of_group h g hmem
    obtain ⟨e, he, rfl⟩ := List.mem_map.1 (hfst ▸ hmem)
    have hone : (written.map replacement).filter (·.partition.keys = e.1.partition.keys) = [replacement e] := by
      rw [← filter_key_eq_singleton (hkeys ▸ hg.nodup) (List.mem_map_of_mem he)]
      refine List.filter_congr fun y hy => decide_eq_decide.2 ?_
      obtain ⟨x, -, rfl⟩ := List.mem_map.1 hy
      exact ⟨fun hk => Prod.ext hk rfl, fun hk => congrArg Prod.fst hk⟩
    refine ⟨e.1.partition, e.2, rfl, ⟨r', hg.perm.subset (List.mem_flatMap.2 ⟨e.1, hmem, hr'⟩), hp⟩, ?_, ?_, ?_⟩
    · have hout := List.mem_map_of_mem (f := fun g : Group => g.partition.keys) hmem
      rw [Storage.manifest_withSnapshot, List.filter_append, hone, Manifest.filter_without_of_mem hout]
      rfl
    · exact hw.fresh e.2 (List.mem_map_of_mem he)
    · have hgroup := rows_of_group h e.1.key
      rw [filter_key_eq_singleton hg.nodup hmem, List.flatMap_singleton] at hgroup
      refine Storage.read_eq_ok.2 ⟨List.forall_mem_singleton.2 (hw.stored e.2 (List.mem_map_of_mem he)), ?_⟩
      rw [List.flatMap_singleton]
      show s₁.rowsOf e.2 = _
      rw [hrows e he, hgroup]
      refine List.filter_congr fun x _ => decide_eq_decide.2 ⟨And.left, fun hx => ⟨hx, ?_⟩⟩
      exact congrArg some (hg.bucket_eq_zero hmem).symm
  · have hout : keys ∉ groups.map fun g => g.partition.keys := fun hmem => hnone (hg.mem_keys_iff.1 hmem)
    have hothers : (written.map replacement).filter (·.partition.keys = keys) = [] := by
      rw [List.filter_eq_nil_iff]
      intro y hy hk
      obtain ⟨x, hx, rfl⟩ := List.mem_map.1 hy
      exact hout (List.mem_map.2 ⟨x.1, hfst ▸ List.mem_map_of_mem hx, of_decide_eq_true hk⟩)
    rw [Storage.manifest_withSnapshot, List.filter_append, hothers, List.append_nil, Manifest.filter_without hout]

theorem overwrite_eq_ok (hs : s.Sound t) (hproper : s.manifest.Proper) {id : Option Nat}
    (h : t.overwrite rows user s = (.ok id, s')) :
    rows = [] ∧ id = none ∧ s' = s ∨
      rows ≠ [] ∧ id = some (s.snapshots.length + 1) ∧ s.Overwrites t user rows s' := by
  rcases t.overwrite_eq rows user s with
    ⟨fault, -, e⟩ | ⟨hgroups, e⟩ | ⟨groups, before, -, -, e⟩ | ⟨groups, hgroups, hsome, -, e⟩
  · cases h.symm.trans e
  · cases h.symm.trans e
    exact .inl ⟨(grouped_of_group hgroups).eq_nil_iff.1 rfl, rfl, rfl⟩
  · cases h.symm.trans e
  · have hw := writes_storeGroups groups hs.numbered
    have hover := overwrites_of_group hs hproper hgroups user
    rw [hw.manifest, hw.snapshots] at e
    cases h.symm.trans e
    exact .inr ⟨fun hnil => hsome ((grouped_of_group hgroups).eq_nil_iff.2 hnil), rfl, hover⟩

end Table

end Compaction
