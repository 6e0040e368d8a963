import Compaction.Proofs.Job.Atomic
import Mathlib.Data.List.Pairwise

/-!
# Files and their buckets

A file that is stored is listed under the buckets that it was listed under before, or no longer: appending and
overwriting list new files only, and a commit lists what its fragments bring (`Storage.Confines`). So a file never
moves to another bucket, and once it is live no more it does not come back.
-/

namespace Compaction

/-- Whether a file is stored and, if it is live, under a bucket of a certain kind. -/
structure Storage.Confines (s : Storage) (kind : BucketKey → Prop) (x : DataFile) : Prop where
  stored : s.Stores x
  listed : s.manifest.Each fun key y => y = x → kind key

variable {t : Table} {s s' : Storage} {m : Manifest} {x : DataFile} {kind : BucketKey → Prop}
variable {fragments : List Fragment}

/-- A file is listed under one bucket at most. -/
theorem Manifest.eq_of_mem_files (hn : m.files.Nodup) {e e' : Entry} (he : e ∈ m) (he' : e' ∈ m) (hx : x ∈ e.files)
    (hx' : x ∈ e'.files) : e = e' := by
  have hdisjoint := (List.nodup_flatMap.1 hn).2
  by_contra hne
  have : Std.Symm (Function.onFun List.Disjoint Entry.files) := ⟨fun _ _ h _ hx hx' => h hx' hx⟩
  exact hdisjoint.forall he he' hne hx hx'

namespace Storage.Confines

theorem of_mem (hs : s.Sound t) {e : Entry} (he : e ∈ s.manifest) (hx : x ∈ e.files) :
    s.Confines (· = e.key) x := by
  refine ⟨hs.manifest.stored x (Manifest.mem_files.2 ⟨e, he, hx⟩), fun e' he' y hy hyx => ?_⟩
  subst hyx
  rw [Manifest.eq_of_mem_files hs.manifest.nodup he' he hy hx]

/-- A stored file that is not live is confined to nothing. -/
theorem of_not_mem (hst : s.Stores x) (hx : x ∉ s.manifest.files) : s.Confines (fun _ => False) x := by
  refine ⟨hst, fun e he y hy hyx => ?_⟩
  subst hyx
  exact hx (Manifest.mem_files.2 ⟨e, he, hy⟩)

theorem key (h : s.Confines kind x) {e : Entry} (he : e ∈ s.manifest) (hx : x ∈ e.files) : kind e.key :=
  h.listed e he x hx rfl

theorem not_mem (h : s.Confines (fun _ => False) x) : x ∉ s.manifest.files := by
  intro hx
  obtain ⟨e, he, hx⟩ := Manifest.mem_files.1 hx
  exact h.key he hx

theorem grows (h : s.Confines kind x) (hg : s.Grows s') : s'.Confines kind x := by
  refine ⟨hg.extends_.stores h.stored, ?_⟩
  rw [hg.manifest]
  exact h.listed

theorem committed (h : s.Confines kind x) (hf : ∀ f ∈ fragments, x ∉ f.brought) (user label : String) :
    (s.withSnapshot user label (s.manifest.committed fragments)).Confines kind x := by
  refine ⟨h.stored, ?_⟩
  rw [Storage.manifest_withSnapshot]
  refine h.listed.committed fun f hmem y hy hyx => ?_
  subst hyx
  exact absurd hy (hf f hmem)

theorem apply (h : s.Confines kind x) (hf : ∀ f ∈ fragments, x ∉ f.brought) (t : Table) (user label : String) :
    (t.apply user label fragments s).2.Confines kind x := by
  rcases t.apply_cases user label fragments s with ⟨fault, -, e⟩ | ⟨-, -, e⟩
  · rw [e]
    exact h
  · rw [e]
    exact h.committed hf user label

theorem commitFragments (h : s.Confines kind x) (hf : ∀ f ∈ fragments, x ∉ f.brought) (t : Table) (user : String) :
    (t.commitFragments user fragments s).2.Confines kind x := by
  rcases t.commitFragments_cases user fragments s with ⟨-, fault, e⟩ | ⟨-, e⟩ | ⟨-, -, e⟩
  · rw [e]
    exact h
  · rw [e]
    exact h
  · rw [e]
    exact h.committed (fun f hmem => hf f (List.mem_filter.1 hmem).1) user "COMPACT"

theorem append (h : s.Confines kind x) (hs : s.Numbered) (t : Table) (rows : List Row) (bucket : Option Int)
    (user : String) : (t.append rows bucket user s).2.Confines kind x := by
  rcases t.append_changes rows bucket user s with ⟨groups, e⟩ | ⟨groups, -, -, e⟩
  · rw [e]
    exact h.grows (Storage.grows_storeGroups groups s)
  · have hw := Table.writes_storeGroups groups hs
    rw [e]
    refine (h.grows (Storage.grows_storeGroups groups s)).apply (fun f hf hx => ?_) t user "APPEND"
    obtain ⟨written, hwritten, rfl⟩ := List.mem_map.1 hf
    have hnew : x ∈ (Table.storeGroups groups s).1.map Prod.snd :=
      List.mem_map.2 ⟨written, hwritten, (List.mem_singleton.1 hx).symm⟩
    exact hw.fresh x hnew h.stored

theorem overwrite (h : s.Confines kind x) (hs : s.Numbered) (t : Table) (rows : List Row) (user : String) :
    (t.overwrite rows user s).2.Confines kind x := by
  rcases t.overwrite_changes rows user s with ⟨groups, e⟩ | ⟨groups, -, -, e⟩
  · rw [e]
    exact h.grows (Storage.grows_storeGroups groups s)
  · have hw := Table.writes_storeGroups groups hs
    have hgrown := h.grows (Storage.grows_storeGroups groups s)
    rw [e]
    refine ⟨hgrown.stored, ?_⟩
    rw [Storage.manifest_withSnapshot]
    intro e he y hy hyx
    subst hyx
    rcases List.mem_append.1 (List.mem_filter.1 he).1 with he | he
    · exact hgrown.key (List.mem_filter.1 he).1 hy
    · obtain ⟨written, hwritten, rfl⟩ := List.mem_map.1 he
      have hnew : y ∈ (Table.storeGroups groups s).1.map Prod.snd :=
        List.mem_map.2 ⟨written, hwritten, (List.mem_singleton.1 hy).symm⟩
      exact absurd h.stored (hw.fresh y hnew)

theorem writeSorted (h : s.Confines kind x) (hs : s.Numbered) (t : Table) (rows : List Row) (strategy : Strategy)
    (columns : List String) : (t.writeSorted rows strategy columns s).2.Confines kind x := by
  rw [Table.writeSorted, Effect.ofExcept_bind]
  cases t.sortRows rows strategy columns with
  | error fault => exact h
  | ok inOrder => exact h.overwrite hs t inOrder "sort-compact"

end Storage.Confines

end Compaction
