import Compaction.Proofs.Job.Atomic
import Compaction.Proofs.Job.Sequence

/-!
# Created files

Each file that an operation creates has a name that no file had before, and as many rows are stored under it, and of
the size, as it tells (`Storage.Creates`). An append, a commit or an overwriting adds at most one snapshot, of the next
number, which lists files that were listed before, that it has just created, or that its fragments bring
(`Storage.Develops`).
-/

namespace Compaction

/-- Whether as many rows are stored under the name of a file as it tells. -/
def Storage.Holds (s : Storage) (f : DataFile) : Prop :=
  ∃ rows, s.contents.lookup f.name = some rows ∧ f.rows = rows.length

/-- Whether the rows of a file are of the size that it tells. -/
def Storage.Measures (s : Storage) (f : DataFile) : Prop := f.size = Number.total ((s.rowsOf f).map Row.size)

/-- Whether files were created under new names. -/
structure Storage.Creates (s s' : Storage) (files : List DataFile) : Prop where
  extends_ : s.Extends s'
  fresh : ∀ f ∈ files, ¬ s.Stores f
  names : (files.map DataFile.name).Nodup
  holds : ∀ f ∈ files, s'.Holds f
  measures : ∀ f ∈ files, s'.Measures f

/-- Whether at most one snapshot was added, of the next number. -/
def Storage.Adds (s s' : Storage) : Prop :=
  s'.snapshots = s.snapshots ∨
    ∃ snapshot : Snapshot, snapshot.id = s.snapshots.length + 1 ∧ s'.snapshots = s.snapshots ++ [snapshot]

/-- Whether files were created and at most one snapshot was added, and what is live then was live before, was brought,
or is one of these files. -/
structure Storage.Develops (s : Storage) (brought : List DataFile) (s' : Storage) : Prop where
  created : ∃ new, s.Creates s' new ∧ ∀ x ∈ s'.manifest.files, x ∈ s.manifest.files ∨ x ∈ brought ∨ x ∈ new
  adds : s.Adds s'

variable {t : Table} {s s' s'' : Storage} {files files' brought : List DataFile} {fragments : List Fragment}
variable {x : DataFile}

namespace Storage

theorem Holds.stores (h : s.Holds x) : s.Stores x := by
  obtain ⟨rows, hrows, -⟩ := h
  obtain ⟨before, after, hcontents, -⟩ := List.lookup_eq_some_iff.1 hrows
  simp [Stores, hcontents]

theorem Holds.extends (h : s.Holds x) (hs : s.Extends s') : s'.Holds x := by
  obtain ⟨rows, hrows, hlength⟩ := h
  exact ⟨rows, hs.lookup_eq_some hrows, hlength⟩

theorem Holds.rows_eq (h : s.Holds x) : x.rows = (s.rowsOf x).length := by
  obtain ⟨rows, hrows, hlength⟩ := h
  rw [rowsOf, hrows]
  exact hlength

theorem Measures.extends (h : s.Measures x) (hst : s.Stores x) (hs : s.Extends s') : s'.Measures x := by
  rw [Measures, hs.rowsOf_eq hst]
  exact h

/-- Numbered files have different names. -/
theorem Numbered.nodup (h : s.Numbered) : (s.contents.map Prod.fst).Nodup := by
  rw [h]
  exact List.nodup_range.map fun _ _ => fileName_injective

namespace Creates

theorem of_extends (h : s.Extends s') : s.Creates s' [] := ⟨h, by simp, List.nodup_nil, by simp, by simp⟩

theorem nil (s : Storage) : s.Creates s [] := of_extends (.refl s)

theorem append (h : s.Creates s' files) (h' : s'.Creates s'' files') : s.Creates s'' (files ++ files') := by
  refine ⟨h.extends_.trans h'.extends_, fun f hf hst => ?_, ?_, fun f hf => ?_, fun f hf => ?_⟩
  · rcases List.mem_append.1 hf with hf | hf
    · exact h.fresh f hf hst
    · exact h'.fresh f hf (h.extends_.stores hst)
  · rw [List.map_append]
    refine h.names.append h'.names fun name hname hname' => ?_
    -- a name of the first files is stored when the others are created
    obtain ⟨f, hf, rfl⟩ := List.mem_map.1 hname
    obtain ⟨g, hg, hsame⟩ := List.mem_map.1 hname'
    have hst : s'.Stores f := (h.holds f hf).stores
    rw [Stores, ← hsame] at hst
    exact h'.fresh g hg hst
  · rcases List.mem_append.1 hf with hf | hf
    · exact (h.holds f hf).extends h'.extends_
    · exact h'.holds f hf
  · rcases List.mem_append.1 hf with hf | hf
    · exact (h.measures f hf).extends (h.holds f hf).stores h'.extends_
    · exact h'.measures f hf

end Creates

private theorem creates_storeFile (h : s.Numbered) (rows : List Row) (level : Int) :
    s.Creates (s.storeFile rows level).2 [(s.storeFile rows level).1] := by
  have hw := writes_storeFile rows level h
  have hfile : (s.storeFile rows level).1 ∈ [(s.storeFile rows level).1] := List.mem_singleton_self _
  refine ⟨hw.extends_, hw.fresh, List.nodup_singleton _, fun f hf => ?_, fun f hf => ?_⟩
  · obtain rfl := List.mem_singleton.1 hf
    refine ⟨rows, ?_, rfl⟩
    rw [exists_lookup (hw.stored _ hfile), rowsOf_storeFile rows level h]
  · obtain rfl := List.mem_singleton.1 hf
    rw [Measures, rowsOf_storeFile rows level h]
    rfl

private theorem creates_storeGroups (groups : List Table.Group) : ∀ {s : Storage}, s.Numbered →
    s.Creates (Table.storeGroups groups s).2 ((Table.storeGroups groups s).1.map Prod.snd) := by
  induction groups with
  | nil => exact fun {s} _ => .nil s
  | cons g rest ih =>
    intro s h
    exact (creates_storeFile h g.rows 0).append (ih (writes_storeFile g.rows 0 h).numbered)

/-! ### Snapshots -/

namespace Develops

/-- Files that are not listed may be created. -/
theorem of_grows {new : List DataFile} (h : s.Creates s' new) (hs : s.Grows s') : s.Develops brought s' := by
  refine ⟨⟨new, h, fun x hx => .inl ?_⟩, .inl hs.snapshots⟩
  rwa [hs.manifest] at hx

theorem refl (s : Storage) (brought : List DataFile) : s.Develops brought s := of_grows (.nil s) (.refl s)

/-- A snapshot of listed files, of some that are brought and of some that were just created. -/
theorem withSnapshot {new : List DataFile} {m : Manifest} (h : s.Creates s' new) (hs : s.Grows s')
    (hm : ∀ x ∈ m.files, x ∈ s.manifest.files ∨ x ∈ brought ∨ x ∈ new) (user kind : String) :
    s.Develops brought (s'.withSnapshot user kind m) := by
  refine ⟨⟨new, ⟨h.extends_, h.fresh, h.names, h.holds, h.measures⟩, ?_⟩,
    .inr ⟨⟨s'.snapshots.length + 1, user, kind, m⟩, ?_, ?_⟩⟩
  · rwa [manifest_withSnapshot]
  · rw [hs.snapshots]
  · rw [← hs.snapshots]
    rfl

end Develops

end Storage

/-- What a commit lists was listed before or is brought by a fragment. -/
private theorem Manifest.mem_files_committed {m : Manifest} (hx : x ∈ (m.committed fragments).files) :
    x ∈ m.files ∨ x ∈ fragments.flatMap Fragment.brought := by
  have hlisted : m.Each fun _ x => x ∈ m.files ∨ x ∈ fragments.flatMap Fragment.brought :=
    fun e he x hx => .inl (mem_files.2 ⟨e, he, hx⟩)
  have hcommitted := hlisted.committed fun f hf x hx => .inr (List.mem_flatMap.2 ⟨f, hf, hx⟩)
  obtain ⟨e, he, hx⟩ := mem_files.1 hx
  exact hcommitted e he x hx

namespace Table

open Storage (Develops)

theorem develops_append (h : s.Numbered) (t : Table) (rows : List Row) (bucket : Option Int) (user : String) :
    s.Develops [] (t.append rows bucket user s).2 := by
  rcases t.append_changes rows bucket user s with ⟨groups, e⟩ | ⟨groups, -, -, e⟩
  · rw [e]
    exact .of_grows (Storage.creates_storeGroups groups h) (Storage.grows_storeGroups groups s)
  · have hcreates := Storage.creates_storeGroups groups h
    have hgrows := Storage.grows_storeGroups groups s
    rw [e]
    generalize (storeGroups groups s).1 = written, (storeGroups groups s).2 = s₁ at hcreates hgrows ⊢
    rcases t.apply_cases user "APPEND" (written.map addition) s₁ with ⟨fault, -, e⟩ | ⟨-, -, e⟩
    · rw [e]
      exact .of_grows hcreates hgrows
    · rw [e]
      refine .withSnapshot hcreates hgrows (fun x hx => ?_) user "APPEND"
      rw [← flatMap_brought_additions, ← hgrows.manifest]
      exact (Manifest.mem_files_committed hx).imp_right .inr

private theorem develops_overwrite (h : s.Numbered) (t : Table) (rows : List Row) (user : String) :
    s.Develops [] (t.overwrite rows user s).2 := by
  rcases t.overwrite_changes rows user s with ⟨groups, e⟩ | ⟨groups, -, -, e⟩
  · rw [e]
    exact .of_grows (Storage.creates_storeGroups groups h) (Storage.grows_storeGroups groups s)
  · have hcreates := Storage.creates_storeGroups groups h
    have hgrows := Storage.grows_storeGroups groups s
    rw [e]
    refine .withSnapshot hcreates hgrows (fun x hx => ?_) user "OVERWRITE"
    rw [Manifest.files_filled, files_append_replacements, hgrows.manifest] at hx
    rcases List.mem_append.1 hx with hx | hx
    · exact .inl (((s.manifest.without_sublist _).flatMap _).subset hx)
    · exact .inr (.inr hx)

theorem develops_writeSorted (h : s.Numbered) (t : Table) (rows : List Row) (strategy : Strategy)
    (columns : List String) : s.Develops [] (t.writeSorted rows strategy columns s).2 := by
  rw [writeSorted, Effect.ofExcept_bind]
  cases t.sortRows rows strategy columns with
  | error fault => exact .refl s []
  | ok inOrder => exact develops_overwrite h t inOrder "sort-compact"

theorem develops_commitFragments (t : Table) (user : String) (fragments : List Fragment) (s : Storage) :
    s.Develops (fragments.flatMap Fragment.brought) (t.commitFragments user fragments s).2 := by
  rcases t.commitFragments_cases user fragments s with ⟨-, fault, e⟩ | ⟨-, e⟩ | ⟨-, -, e⟩
  · rw [e]
    exact .refl s _
  · rw [e]
    exact .refl s _
  · rw [e]
    have hchanges : (changesOf fragments).Sublist fragments := List.filter_sublist
    refine .withSnapshot (.nil s) (.refl s) (fun x hx => ?_) user "COMPACT"
    exact (Manifest.mem_files_committed hx).imp_right fun hx => .inl ((hchanges.flatMap _).subset hx)

end Table

/-! ### Merging -/

private theorem creates_mergeFiles (h : s.Numbered) {level : Int} {merged : DataFile}
    (e : mergeFiles files level s = (.ok merged, s')) : s.Creates s' [merged] := by
  rw [mergeFiles, Effect.ofRead_bind] at e
  cases hread : s.read files with
  | error fault =>
    rw [hread] at e
    cases e
  | ok rows =>
    rw [hread] at e
    rcases Storage.writeFile_cases rows level s with ⟨-, hwritten⟩ | ⟨-, hwritten⟩
    · cases hwritten.symm.trans e
      exact Storage.creates_storeFile h rows level
    · cases hwritten.symm.trans e

/-- The files that are created for a unit are those of its fragments. -/
theorem Table.creates_compactUnit (h : s.Numbered) {full : Bool} {u : WorkUnit}
    (e : t.compactUnit full u s = (.ok fragments, s')) : s.Creates s' (fragments.flatMap Fragment.after) := by
  cases u with
  | bucket p bucket =>
    obtain ⟨w, s₁, hw, e⟩ := Effect.bind_eq_ok.1 e
    cases e
    rcases BucketWriter.compact_eq_ok hw with ⟨hf, rfl, -⟩ | ⟨files, merged, -, -, -, hmerged, hf⟩
    · rw [BucketWriter.prepare, hf]
      exact .nil _
    · rw [BucketWriter.prepare, hf, List.flatMap_singleton]
      exact creates_mergeFiles h hmerged
  | task version payload =>
    obtain ⟨task, merged, -, -, hmerged, rfl⟩ := compactUnit_task_eq_ok e
    rw [List.flatMap_singleton]
    exact creates_mergeFiles h hmerged

end Compaction
