import Compaction.Table.Snapshot
import Mathlib.Data.List.Perm.Basic

/-!
# The files of a manifest

What putting files under a bucket does to the files of the whole manifest (`files_put`) and to its buckets
(`nodup_keys_put`), facts that hold of every file where it is listed (`Each`), and the manifest without its empty
buckets (`filesAt_filled`).
-/

namespace Compaction

/-- What a bucket of a partition is found by. -/
abbrev BucketKey := List (Option Key) × Int

namespace Manifest

variable {m : Manifest}

/-- The manifest without some partitions. -/
def without (m : Manifest) (replaced : List (List (Option Key))) : Manifest :=
  m.filter fun e => !replaced.contains e.partition.keys

/-- The manifest without the buckets that have no files. -/
def filled (m : Manifest) : Manifest := m.filter fun e => !e.files.isEmpty

theorem without_sublist (m : Manifest) (replaced : List (List (Option Key))) : (m.without replaced).Sublist m :=
  List.filter_sublist

theorem mem_files {f : DataFile} : f ∈ m.files ↔ ∃ e ∈ m, f ∈ e.files := List.mem_flatMap

theorem files_sublist {e : Entry} (he : e ∈ m) : e.files.Sublist m.files :=
  List.sublist_flatten_of_mem (List.mem_map_of_mem he)

theorem files_filled (m : Manifest) : m.filled.files = m.files := by
  induction m with
  | nil => rfl
  | cons e rest ih =>
    unfold files filled at ih ⊢
    by_cases h : e.files = []
    · simp [h, ih]
    · simp [h, ih]

/-- Putting files under a bucket exchanges those that are there, and no others. -/
theorem files_put (m : Manifest) (p : Partition) (bucket : Int) :
    ∃ others, m.files.Perm (m.filesAt (p.keys, bucket) ++ others) ∧
      ∀ files, (m.put p bucket files).files.Perm (files ++ others) := by
  induction m with
  | nil => exact ⟨[], .refl _, fun files => by simp [put, Manifest.files]⟩
  | cons e rest ih =>
    by_cases h : e.key = (p.keys, bucket)
    · refine ⟨Manifest.files rest, ?_, fun files => ?_⟩
      · simp [filesAt, h, Manifest.files]
      · simp [put, h, Manifest.files]
    · obtain ⟨others, hm, hput⟩ := ih
      refine ⟨e.files ++ others, ?_, fun files => ?_⟩
      · simp only [filesAt, h, if_false]
        exact (hm.append_left e.files).trans (List.perm_append_comm_assoc ..)
      · simp only [put, h, if_false]
        exact ((hput files).append_left e.files).trans (List.perm_append_comm_assoc ..)

/-! ### Buckets -/

theorem keys_put (m : Manifest) (p : Partition) (bucket : Int) (files : List DataFile) :
    (m.put p bucket files).map Entry.key =
      if (p.keys, bucket) ∈ m.map Entry.key then m.map Entry.key else m.map Entry.key ++ [(p.keys, bucket)] := by
  induction m with
  | nil => rfl
  | cons e rest ih =>
    by_cases h : e.key = (p.keys, bucket)
    · have h' : ({ e with files := files } : Entry).key = (p.keys, bucket) := h
      simp [put, h, h']
    · simp only [put, h, if_false, List.map_cons, ih, List.mem_cons, Ne.symm h, false_or]
      split <;> rfl

theorem nodup_keys_put (h : (m.map Entry.key).Nodup) (p : Partition) (bucket : Int) (files : List DataFile) :
    ((m.put p bucket files).map Entry.key).Nodup := by
  rw [keys_put]
  split
  · exact h
  · next hk =>
    rw [List.nodup_append]
    refine ⟨h, by simp, ?_⟩
    intro a ha b hb
    rw [List.mem_singleton] at hb
    rintro rfl
    exact hk (hb ▸ ha)

theorem filesAt_eq_nil {key : BucketKey} (h : key ∉ m.map Entry.key) : m.filesAt key = [] := by
  induction m with
  | nil => rfl
  | cons e rest ih =>
    simp only [List.map_cons, List.mem_cons, not_or] at h
    rw [filesAt, if_neg (Ne.symm h.1), ih h.2]

theorem nodup_keys_filled (h : (m.map Entry.key).Nodup) : (m.filled.map Entry.key).Nodup :=
  h.sublist (List.filter_sublist.map _)

theorem filesAt_filled (h : (m.map Entry.key).Nodup) (key : BucketKey) : m.filled.filesAt key = m.filesAt key := by
  induction m with
  | nil => rfl
  | cons e rest ih =>
    rw [List.map_cons, List.nodup_cons] at h
    have ih := ih h.2
    unfold filled at ih ⊢
    by_cases he : e.files = []
    · rw [List.filter_cons_of_neg (by simp [he]), ih, filesAt]
      split
      · next hk => rw [he, filesAt_eq_nil (hk ▸ h.1)]
      · rfl
    · rw [List.filter_cons_of_pos (by simp [he]), filesAt, filesAt, ih]

/-! ### Facts about every file -/

/-- Whether a fact holds of every file with the bucket that it is listed under. -/
def Each (P : BucketKey → DataFile → Prop) (m : Manifest) : Prop := ∀ e ∈ m, ∀ f ∈ e.files, P e.key f

variable {P : BucketKey → DataFile → Prop}

theorem Each.filesAt (h : m.Each P) (key : BucketKey) : ∀ f ∈ m.filesAt key, P key f := by
  induction m with
  | nil => simp [Manifest.filesAt]
  | cons e rest ih =>
    intro f hf
    rw [Manifest.filesAt] at hf
    split at hf
    · next hk => exact hk ▸ h e (by simp) f hf
    · exact ih (fun e' he' => h e' (List.mem_cons_of_mem _ he')) f hf

theorem mem_files_of_mem_filesAt {key : BucketKey} {x : DataFile} (h : x ∈ m.filesAt key) : x ∈ m.files := by
  have hlisted : m.Each fun _ y => y ∈ m.files := fun e he y hy => mem_files.2 ⟨e, he, hy⟩
  exact hlisted.filesAt key x h

theorem Each.put (h : m.Each P) {p : Partition} {bucket : Int} {files : List DataFile}
    (hf : ∀ f ∈ files, P (p.keys, bucket) f) : (m.put p bucket files).Each P := by
  induction m with
  | nil =>
    intro e he
    rw [Manifest.put, List.mem_singleton] at he
    subst he
    exact hf
  | cons e rest ih =>
    have hrest : Each P rest := fun e' he' => h e' (List.mem_cons_of_mem _ he')
    rw [Manifest.put]
    split
    · next hk =>
      intro e' he'
      rcases List.mem_cons.1 he' with rfl | he'
      · intro f hf'
        exact hk ▸ hf f hf'
      · exact hrest e' he'
    · intro e' he'
      rcases List.mem_cons.1 he' with rfl | he'
      · exact h e' (by simp)
      · exact ih hrest e' he'

theorem Each.sublist (h : m.Each P) {m' : Manifest} (hs : m'.Sublist m) : m'.Each P :=
  fun e he => h e (hs.subset he)

end Manifest

end Compaction
