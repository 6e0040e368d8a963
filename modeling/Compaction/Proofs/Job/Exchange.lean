import Compaction.Proofs.Job.Merge

/-!
# Committing merges

Committing the fragments of a job fails and changes nothing, or all its merges are admitted (`commitFragments_cases`).
Then other files are live, the storage is sound and its rows are the same (`sound_commit`, `rowsIn_commit`).
-/

namespace Compaction

variable {t : Table} {s : Storage} {fragments changes : List Fragment} {user kind : String}

/-- The fragments that change something. -/
def changesOf (fragments : List Fragment) : List Fragment := fragments.filter (!·.isEmpty)

theorem changesOf_eq_self (h : ∀ f ∈ fragments, f.after ≠ []) : changesOf fragments = fragments := by
  rw [changesOf, List.filter_eq_self]
  intro f hf
  simp [Fragment.isEmpty, h f hf]

/-- A fragment that replaces a file changes something. -/
theorem mem_changesOf {f : Fragment} {x : DataFile} (hf : f ∈ fragments) (hx : x ∈ f.before) :
    f ∈ changesOf fragments := by
  refine List.mem_filter.2 ⟨hf, ?_⟩
  simp [Fragment.isEmpty, List.ne_nil_of_mem hx]

/-- Whether fragments can be committed together: their partitions are keys, and they are admitted. -/
def Storage.Accepts (s : Storage) (changes : List Fragment) : Prop :=
  (∀ f ∈ changes, f.partition.isKey) ∧ s.manifest.Admits changes

/-- A commit that is not accepted fails and does nothing, it has nothing to do, or what changes something is accepted
and makes one snapshot. -/
theorem Table.commitFragments_cases (t : Table) (user : String) (fragments : List Fragment) (s : Storage) :
    (¬ s.Accepts (changesOf fragments) ∧ ∃ fault, t.commitFragments user fragments s = (.error fault, s)) ∨
    (changesOf fragments = [] ∧ t.commitFragments user fragments s = (.ok none, s)) ∨
    (changesOf fragments ≠ [] ∧ s.Accepts (changesOf fragments) ∧ t.commitFragments user fragments s =
      (.ok (some (s.snapshots.length + 1)),
        s.withSnapshot user "COMPACT" (s.manifest.committed (changesOf fragments)))) := by
  unfold commitFragments
  dsimp only
  by_cases hc : changesOf fragments = []
  · have hempty : (fragments.filter (!·.isEmpty)).isEmpty := List.isEmpty_iff.2 hc
    rw [if_pos hempty]
    exact Or.inr (Or.inl ⟨hc, rfl⟩)
  · have hempty : ¬ (fragments.filter (!·.isEmpty)).isEmpty := fun h => hc (List.isEmpty_iff.1 h)
    rw [if_neg hempty, Effect.map_apply, Effect.mapFault_apply]
    have hopen : Committer.commit { user } t (fragments.filter (!·.isEmpty)) s =
        t.apply user "COMPACT" (changesOf fragments) s := rfl
    rw [hopen]
    rcases t.apply_cases user "COMPACT" (changesOf fragments) s with ⟨fault, -, e⟩ | ⟨hkeys, hadmits, e⟩
    · have hrefused : ¬ s.Accepts (changesOf fragments) := by
        rintro ⟨hkeys, hadmits⟩
        rw [t.apply_of_admits user "COMPACT" hkeys hadmits] at e
        cases e
      rw [e]
      exact Or.inl ⟨hrefused, _, rfl⟩
    · rw [e]
      exact Or.inr (Or.inr ⟨hc, ⟨hkeys, hadmits⟩, rfl⟩)

theorem Fragment.Merges.brought {f : Fragment} (hf : f.Merges s) : f.brought = f.after := by
  rw [Fragment.brought, hf.added, List.append_nil]

/-- A merged row comes from a live file of the bucket: what is true of all rows there is true of it. -/
theorem Fragment.Merges.placed {f : Fragment} (hf : f.Merges s) {m : Manifest}
    (hlive : ∀ x ∈ f.before, x ∈ m.filesAt f.key) {P : BucketKey → Row → Prop}
    (hP : m.Each fun key x => ∀ r ∈ s.rowsOf x, P key r) : ∀ r ∈ f.brought.flatMap s.rowsOf, P f.key r := by
  intro r hr
  rw [hf.brought, hf.rows] at hr
  obtain ⟨x, hx, hr⟩ := List.mem_flatMap.1 hr
  exact hP.filesAt f.key x (hlive x hx) r hr

namespace Storage

theorem files_commit (hs : s.Sound t) (hm : ∀ f ∈ changes, f.Merges s) (hadmits : s.manifest.Admits changes) :
    (s.manifest.files ++ changes.flatMap Fragment.after).Perm
      (changes.flatMap Fragment.before ++ (s.manifest.committed changes).files) := by
  rw [← List.flatMap_congr fun f hf => (hm f hf).brought]
  exact Manifest.files_committed hs.manifest.nodup (fun f hf => (hm f hf).nodup) hadmits

/-- A storage stays sound when merges are committed: merged rows are in the partition that they were in. -/
theorem sound_commit (hs : s.Sound t) (hm : ∀ f ∈ changes, f.Merges s) (hadmits : s.manifest.Admits changes)
    (hn : (s.manifest.files ++ changes.flatMap Fragment.after).Nodup) (user kind : String) :
    (s.withSnapshot user kind (s.manifest.committed changes)).Sound t := by
  rw [← List.flatMap_congr fun f hf => (hm f hf).brought] at hn
  refine sound_withSnapshot hs.numbered
    (hs.manifest.committed (fun f hf => (hm f hf).nodup) hadmits hn (fun f hf x hx => ?_) (fun f hf x hx r hr => ?_)
      fun f hf x hx r hr => ?_) hs.willing
  · rw [(hm f hf).brought] at hx
    exact (hm f hf).after x hx
  · exact (hm f hf).placed (hadmits.live f hf) hs.manifest.placed r (List.mem_flatMap.2 ⟨x, hx, hr⟩)
  · have hprinted : s.manifest.Each fun _ x => ∀ r ∈ s.rowsOf x, r.prints := fun e he x hx =>
      hs.manifest.printed x (Manifest.mem_files.2 ⟨e, he, hx⟩)
    exact (hm f hf).placed (hadmits.live f hf) hprinted r (List.mem_flatMap.2 ⟨x, hx, hr⟩)

theorem rowsIn_commit (hs : s.Sound t) (hm : ∀ f ∈ changes, f.Merges s) (hadmits : s.manifest.Admits changes) :
    (s.rowsIn (s.manifest.committed changes)).Perm (s.rowsIn s.manifest) := by
  have hrows := (files_commit hs hm hadmits).flatMap_right s.rowsOf
  have hsame : (changes.flatMap Fragment.after).flatMap s.rowsOf =
      (changes.flatMap Fragment.before).flatMap s.rowsOf := by
    rw [List.flatMap_assoc, List.flatMap_assoc]
    exact List.flatMap_congr fun f hf => (hm f hf).rows
  -- the same rows come and go, on either side of the exchange
  rw [List.flatMap_append, List.flatMap_append, hsame] at hrows
  exact ((List.perm_append_left_iff _).1 (List.perm_append_comm.trans hrows)).symm

end Storage

end Compaction
