import Compaction.Proofs.Job.Atomic

/-!
# Buckets that can be found

Every bucket that a snapshot lists has files, and its partition is a key (`Manifest.Proper`). Appending, overwriting
and committing keep this, whether or not they succeed: new buckets come from rows or fragments whose partitions were
checked, and buckets that are left without files are not listed.
-/

namespace Compaction

/-- Whether every bucket has files and a partition that is a key. -/
structure Manifest.Proper (m : Manifest) : Prop where
  isKey : ∀ e ∈ m, e.partition.isKey
  nonempty : ∀ e ∈ m, e.files ≠ []

variable {t : Table} {s s' : Storage} {m : Manifest} {fragments : List Fragment}

namespace Manifest

theorem proper_nil : Proper [] := ⟨by simp, by simp⟩

private theorem proper_filled (h : ∀ e ∈ m, e.partition.isKey) : m.filled.Proper := by
  constructor
  · intro e he
    exact h e (List.mem_filter.1 he).1
  · intro e he
    simpa using (List.mem_filter.1 he).2

private theorem isKey_put {p : Partition} (hp : p.isKey) (bucket : Int) (files : List DataFile)
    (h : ∀ e ∈ m, e.partition.isKey) : ∀ e ∈ m.put p bucket files, e.partition.isKey := by
  induction m with
  | nil =>
    intro e he
    rw [put, List.mem_singleton] at he
    subst he
    exact hp
  | cons e rest ih =>
    rw [List.forall_mem_cons] at h
    rw [put]
    split
    · exact List.forall_mem_cons.2 h
    · exact List.forall_mem_cons.2 ⟨h.1, ih h.2⟩

theorem Proper.committed (h : m.Proper) (hf : ∀ f ∈ fragments, f.partition.isKey) : (m.committed fragments).Proper := by
  have htaken : ∀ e ∈ fragments.foldl take m, e.partition.isKey := by
    refine List.foldlRecOn (motive := fun m : Manifest => ∀ e ∈ m, e.partition.isKey) fragments _ h.isKey ?_
    intro m hm f hmem
    exact isKey_put (hf f hmem) _ _ hm
  refine proper_filled (m := fragments.foldl Table.addAfter (fragments.foldl take m)) ?_
  refine List.foldlRecOn (motive := fun m : Manifest => ∀ e ∈ m, e.partition.isKey) fragments _ htaken ?_
  intro m hm f hmem
  exact isKey_put (hf f hmem) _ _ hm

end Manifest

namespace Table

private theorem proper_apply (h : s.manifest.Proper) (t : Table) (user kind : String) (fragments : List Fragment) :
    (t.apply user kind fragments s).2.manifest.Proper := by
  rcases t.apply_cases user kind fragments s with ⟨fault, -, e⟩ | ⟨hkeys, -, e⟩
  · rw [e]
    exact h
  · rw [e, Storage.manifest_withSnapshot]
    exact h.committed hkeys

theorem proper_append (h : s.manifest.Proper) (t : Table) (rows : List Row) (bucket : Option Int) (user : String) :
    (t.append rows bucket user s).2.manifest.Proper := by
  rcases t.append_changes rows bucket user s with ⟨groups, e⟩ | ⟨groups, -, -, e⟩
  · rw [e, (Storage.grows_storeGroups groups s).manifest]
    exact h
  · rw [e]
    refine proper_apply ?_ t user "APPEND" _
    rw [(Storage.grows_storeGroups groups s).manifest]
    exact h

theorem proper_overwrite (h : s.manifest.Proper) (t : Table) (rows : List Row) (user : String) :
    (t.overwrite rows user s).2.manifest.Proper := by
  rcases t.overwrite_changes rows user s with ⟨groups, e⟩ | ⟨groups, hg, -, e⟩
  · rw [e, (Storage.grows_storeGroups groups s).manifest]
    exact h
  · have hgrouped := grouped_of_group hg
    rw [e, Storage.manifest_withSnapshot, (Storage.grows_storeGroups groups s).manifest]
    refine Manifest.proper_filled fun e he => ?_
    rcases List.mem_append.1 he with he | he
    · exact h.isKey e (List.mem_filter.1 he).1
    · obtain ⟨x, hx, rfl⟩ := List.mem_map.1 he
      exact hgrouped.isKey x.1 (mem_storeGroups hx)

theorem proper_writeSorted (h : s.manifest.Proper) (t : Table) (rows : List Row) (strategy : Strategy)
    (columns : List String) : (t.writeSorted rows strategy columns s).2.manifest.Proper := by
  rw [writeSorted, Effect.ofExcept_bind]
  cases t.sortRows rows strategy columns with
  | error fault => exact h
  | ok inOrder => exact proper_overwrite h t inOrder "sort-compact"

theorem proper_commitFragments (h : s.manifest.Proper) (t : Table) (user : String) (fragments : List Fragment) :
    (t.commitFragments user fragments s).2.manifest.Proper := by
  rcases t.commitFragments_cases user fragments s with ⟨-, fault, e⟩ | ⟨-, e⟩ | ⟨-, ⟨hkeys, -⟩, e⟩
  · rw [e]
    exact h
  · rw [e]
    exact h
  · rw [e, Storage.manifest_withSnapshot]
    exact h.committed hkeys

end Table

end Compaction
