import Compaction.Job.Worker
import Compaction.Proofs.Codec.Packed
import Compaction.Proofs.Table.Sound

/-!
# Merging

What is made of a unit of work are fragments that put new files in the place of others with the same rows
(`Fragment.Merges`), and nothing but these files is written (`Completes`, `compactUnit_cases`). The units of a slice are
worked on as each of them is in turn (`compactBuckets_cons`, `carryOutTasks_cons`), without a look at the disk
(`blind_compactUnit`).
-/

namespace Compaction

/-- Whether a fragment puts files in the place of others with the same rows. -/
structure Fragment.Merges (s : Storage) (f : Fragment) : Prop where
  added : f.added = []
  nodup : f.before.Nodup
  before : ∀ x ∈ f.before, s.Stores x
  after : ∀ x ∈ f.after, s.Stores x
  rows : f.after.flatMap s.rowsOf = f.before.flatMap s.rowsOf

/-- Whether only the files of some fragments were written, which merge. -/
structure Storage.Completes (s s' : Storage) (fragments : List Fragment) : Prop where
  writes : s.Writes s' (fragments.flatMap Fragment.after)
  merges : ∀ f ∈ fragments, f.Merges s'

variable {t : Table} {s s' s'' : Storage} {files : List DataFile}

theorem Fragment.Merges.extends {f : Fragment} (hf : f.Merges s) (h : s.Extends s') : f.Merges s' := by
  refine ⟨hf.added, hf.nodup, fun x hx => h.stores (hf.before x hx), fun x hx => h.stores (hf.after x hx), ?_⟩
  rw [h.flatMap_rowsOf hf.after, h.flatMap_rowsOf hf.before, hf.rows]

namespace Storage

theorem Completes.nil (h : s.Numbered) : s.Completes s [] := ⟨.nil h, by simp⟩

theorem Completes.append {fs gs : List Fragment} (h : s.Completes s' fs) (h' : s'.Completes s'' gs) :
    s.Completes s'' (fs ++ gs) := by
  refine ⟨?_, fun f hf => ?_⟩
  · rw [List.flatMap_append]
    exact h.writes.append h'.writes
  · rcases List.mem_append.1 hf with hf | hf
    · exact (h.merges f hf).extends h'.writes.extends_
    · exact h'.merges f hf

end Storage

/-! ### Merging files -/

/-- Merging fails, after a file was written maybe, or it writes one file with the rows of all. -/
private theorem mergeFiles_cases (hs : s.Numbered) (files : List DataFile) (level : Int) :
    (∃ fault s' left, mergeFiles files level s = (.error fault, s') ∧ s.Writes s' left) ∨
    ∃ merged s', mergeFiles files level s = (.ok merged, s') ∧ s.Writes s' [merged] ∧ (∀ f ∈ files, s.Stores f) ∧
      s'.rowsOf merged = files.flatMap s.rowsOf := by
  rw [mergeFiles, Effect.ofRead_bind]
  cases h : s.read files with
  | error fault => exact Or.inl ⟨fault, s, [], rfl, .nil hs⟩
  | ok rows =>
    obtain ⟨hst, rfl⟩ := Storage.read_eq_ok.1 h
    have hw := Storage.writes_storeFile (files.flatMap s.rowsOf) level hs
    rcases Storage.writeFile_cases (files.flatMap s.rowsOf) level s with ⟨-, e⟩ | ⟨-, e⟩
    · exact Or.inr ⟨_, _, e, hw, hst, Storage.rowsOf_storeFile _ level hs⟩
    · exact Or.inl ⟨_, _, _, e, hw⟩

/-- The fragment of files that were merged. -/
private theorem completes_merged {merged : DataFile} (hn : files.Nodup) (hw : s.Writes s' [merged])
    (hst : ∀ f ∈ files, s.Stores f) (hrows : s'.rowsOf merged = files.flatMap s.rowsOf) (p : Partition) (bucket : Int) :
    s.Completes s' [{ partition := p, bucket := bucket, before := files, after := [merged] }] := by
  refine ⟨hw, fun f hf => ?_⟩
  rw [List.mem_singleton] at hf
  subst hf
  refine ⟨rfl, hn, fun f hf => hw.extends_.stores (hst f hf), hw.stored, ?_⟩
  rw [hw.extends_.flatMap_rowsOf hst, ← hrows, List.flatMap_singleton]

/-! ### Buckets -/

namespace BucketWriter

theorem candidates_sublist {full : Bool} {chosen : List DataFile} (h : candidates t files full = .ok chosen) :
    chosen.Sublist files := by
  unfold candidates at h
  split at h
  · cases h
    exact .refl _
  · obtain ⟨target, -, h⟩ := Except.bind_eq_ok.1 h
    obtain ⟨least, -, h⟩ := Except.bind_eq_ok.1 h
    split at h
    · cases h
      exact List.nil_sublist _
    · cases h
      exact List.filter_sublist

theorem files_sublist (s : Storage) (p : Partition) (bucket : Int) :
    (s.files (some p) (some bucket)).Sublist s.manifest.files :=
  List.filter_sublist.flatMap _

/-- A writer fails, after a file was written maybe, or it has some more fragments. -/
theorem compact_cases (hs : s.Numbered) (hn : s.manifest.files.Nodup) (t : Table) (p : Partition) (bucket : Int)
    (full : Bool) (done : List Fragment) :
    (∃ fault s' left, BucketWriter.compact { fragments := done } t p bucket full s = (.error fault, s') ∧
      s.Writes s' left) ∨
    ∃ fs s', BucketWriter.compact { fragments := done } t p bucket full s = (.ok { fragments := done ++ fs }, s') ∧
      s.Completes s' fs := by
  have hidle : ∃ fs s', (.ok { fragments := done }, s) =
      ((.ok { fragments := done ++ fs }, s') : Except Fault BucketWriter × Storage) ∧ s.Completes s' fs :=
    ⟨[], s, by simp, .nil hs⟩
  unfold compact
  simp only [Bool.false_eq_true, if_false]
  split
  · exact Or.inr hidle
  · rw [Effect.ofRead_bind]
    cases hc : candidates t (s.files (some p) (some bucket)) full with
    | error fault => exact Or.inl ⟨fault, s, [], rfl, .nil hs⟩
    | ok files =>
      have hfiles : files.Nodup := hn.sublist ((candidates_sublist hc).trans (files_sublist s p bucket))
      dsimp only
      split
      · exact Or.inr hidle
      · rw [Effect.bind_apply]
        rcases mergeFiles_cases hs files (highestLevel files + 1) with
          ⟨fault, s', left, e, hw⟩ | ⟨merged, s', e, hw, hst, hrows⟩
        · rw [e]
          exact Or.inl ⟨fault, s', left, rfl, hw⟩
        · rw [e]
          exact Or.inr ⟨_, s', rfl, completes_merged hfiles hw hst hrows p bucket⟩

end BucketWriter

/-! ### Tasks -/

theorem TaskWriter.compact_cases (hs : s.Numbered) (task : Task) (hn : task.files.Nodup) :
    (∃ fault s' left, TaskWriter.compact {} task s = (.error fault, s') ∧ s.Writes s' left) ∨
    ∃ f s', TaskWriter.compact {} task s = (.ok f, s') ∧ s.Completes s' [f] := by
  unfold TaskWriter.compact
  simp only [Bool.false_eq_true, if_false]
  split
  · exact Or.inl ⟨_, s, [], rfl, .nil hs⟩
  · rw [Effect.bind_apply]
    rcases mergeFiles_cases hs task.files 0 with ⟨fault, s', left, e, hw⟩ | ⟨merged, s', e, hw, hst, hrows⟩
    · rw [e]
      exact Or.inl ⟨fault, s', left, rfl, hw⟩
    · rw [e]
      exact Or.inr ⟨_, s', rfl, completes_merged hn hw hst hrows task.partition 0⟩

/-! ### Units -/

/-- Whether a task, if it is one, names no file twice, however deep documents may be nested. -/
def WorkUnit.IsPlain : WorkUnit → Prop
  | .bucket _ _ => True
  | .task version payload => ∀ depth task, Task.decode depth version payload = .ok task → task.files.Nodup

/-- What is made of one unit of work. -/
def Table.compactUnit (t : Table) (full : Bool) : WorkUnit → Action (List Fragment)
  | .bucket p bucket => do return (← BucketWriter.compact {} t p bucket full).prepare.1
  | .task version payload => do
    let task ← Effect.ofRead fun s => Task.decode s.host.maxDepth version payload
    return [← TaskWriter.compact {} task]

theorem compactUnit_cases (hs : s.Numbered) (hn : s.manifest.files.Nodup) (t : Table) (full : Bool) {u : WorkUnit}
    (hu : u.IsPlain) : (∃ fault s' left, t.compactUnit full u s = (.error fault, s') ∧ s.Writes s' left) ∨
      ∃ fs s', t.compactUnit full u s = (.ok fs, s') ∧ s.Completes s' fs := by
  cases u with
  | bucket p bucket =>
    rw [Table.compactUnit, Effect.bind_apply]
    rcases BucketWriter.compact_cases hs hn t p bucket full [] with ⟨fault, s', left, e, h⟩ | ⟨fs, s', e, h⟩
    · rw [e]
      exact Or.inl ⟨fault, s', left, rfl, h⟩
    · rw [e]
      exact Or.inr ⟨fs, s', rfl, h⟩
  | task version payload =>
    rw [Table.compactUnit, Effect.ofRead_bind]
    cases hd : Task.decode s.host.maxDepth version payload with
    | error fault => exact Or.inl ⟨fault, s, [], rfl, .nil hs⟩
    | ok task =>
      dsimp only
      rw [Effect.bind_apply]
      rcases TaskWriter.compact_cases hs task (hu _ task hd) with ⟨fault, s', left, e, h⟩ | ⟨f, s', e, h⟩
      · rw [e]
        exact Or.inl ⟨fault, s', left, rfl, h⟩
      · rw [e]
        exact Or.inr ⟨[f], s', rfl, h⟩

/-! ### Slices -/

/-- Whether a unit is one for a table of the given mode. -/
def WorkUnit.Fits (mode : BucketMode) : WorkUnit → Prop
  | .bucket _ _ => mode.isAssigned
  | .task _ _ => ¬ mode.isAssigned

/-- Fragments that a writer has from before are the first of those that it gives away. -/
private theorem BucketWriter.compact_done (t : Table) (p : Partition) (bucket : Int) (full : Bool)
    (done : List Fragment) (s : Storage) : BucketWriter.compact { fragments := done } t p bucket full s =
      ((BucketWriter.compact {} t p bucket full s).1.map fun w => { fragments := done ++ w.fragments },
        (BucketWriter.compact {} t p bucket full s).2) := by
  unfold compact
  simp only [Bool.false_eq_true, if_false]
  split
  · simp [Except.map]
  · rw [Effect.ofRead_bind, Effect.ofRead_bind]
    cases candidates t (s.files (some p) (some bucket)) full with
    | error fault => rfl
    | ok files =>
      dsimp only
      split
      · simp [Except.map]
      · rw [Effect.bind_apply, Effect.bind_apply]
        rcases mergeFiles files (highestLevel files + 1) s with ⟨_ | merged, s'⟩
        · rfl
        · simp [Except.map]

namespace Table

private theorem compactBuckets_done (t : Table) (mode : BucketMode) (units : List WorkUnit) :
    ∀ (done : List Fragment) (s : Storage), compactBuckets t mode units { fragments := done } s =
      ((compactBuckets t mode units {} s).1.map (done ++ ·), (compactBuckets t mode units {} s).2) := by
  induction units with
  | nil => intro done s; simp [compactBuckets, BucketWriter.prepare, Except.map]
  | cons u rest ih =>
    intro done s
    cases u with
    | task version payload => rfl
    | bucket p bucket =>
      have hopen := BucketWriter.compact_done t p bucket true [] s
      rw [compactBuckets, compactBuckets, Effect.bind_apply, Effect.bind_apply, BucketWriter.compact_done]
      rcases h : BucketWriter.compact {} t p bucket true s with ⟨_ | w, s'⟩
      · rfl
      · rw [h] at hopen
        have hw : w = { fragments := w.fragments } := Except.ok.inj (congrArg Prod.fst hopen)
        rw [hw]
        dsimp only [Except.map]
        rw [ih, ih w.fragments s']
        cases (compactBuckets t mode rest {} s').1 with
        | error fault => rfl
        | ok fs => simp [Except.map]

/-- A bucket that comes first is worked on as it is alone. -/
theorem compactBuckets_cons {t : Table} {mode : BucketMode} (p : Partition) (bucket : Int) (rest : List WorkUnit) :
    compactBuckets t mode (.bucket p bucket :: rest) {} =
      do return (← t.compactUnit true (.bucket p bucket)) ++ (← compactBuckets t mode rest {}) := by
  funext s
  have hopen := BucketWriter.compact_done t p bucket true [] s
  rw [compactBuckets, compactUnit, bind_assoc, Effect.bind_apply, Effect.bind_apply]
  rcases h : BucketWriter.compact {} t p bucket true s with ⟨_ | w, s'⟩
  · rfl
  · rw [h] at hopen
    have hw : w = { fragments := w.fragments } := Except.ok.inj (congrArg Prod.fst hopen)
    rw [hw]
    dsimp only
    rw [compactBuckets_done, pure_bind, Effect.bind_apply]
    rcases compactBuckets t mode rest {} s' with ⟨_ | fs, s''⟩
    · rfl
    · rfl

/-- A task that comes first is carried out as it is alone. -/
theorem carryOutTasks_cons {mode : BucketMode} (t : Table) (version : Int) (payload : List UInt8)
    (rest : List WorkUnit) : carryOutTasks mode (.task version payload :: rest) =
      do return (← t.compactUnit true (.task version payload)) ++ (← carryOutTasks mode rest) := by
  rw [carryOutTasks, compactUnit]
  simp only [bind_assoc, pure_bind, List.singleton_append]

/-! ### The disk -/

private theorem blind_mergeFiles (files : List DataFile) (level : Int) : (mergeFiles files level).Blind := by
  unfold mergeFiles
  refine (Effect.blind_ofRead fun s disk => ?_).bind fun rows => Effect.blind_writeFile rows level
  induction files with
  | nil => rfl
  | cons f rest ih => rw [Storage.read, Storage.read, ih]; rfl

theorem blind_compactUnit (t : Table) (full : Bool) (u : WorkUnit) : (t.compactUnit full u).Blind := by
  cases u with
  | bucket p bucket =>
    unfold compactUnit BucketWriter.compact
    refine Effect.Blind.bind ?_ fun w => Effect.blind_pure _
    simp only [Bool.false_eq_true, if_false]
    split
    · exact Effect.blind_pure _
    · refine (Effect.blind_ofRead fun s disk => rfl).bind fun files => ?_
      split
      · exact Effect.blind_pure _
      · exact (blind_mergeFiles _ _).bind fun merged => Effect.blind_pure _
  | task version payload =>
    unfold compactUnit TaskWriter.compact
    refine (Effect.blind_ofRead fun s disk => rfl).bind fun task => Effect.Blind.bind ?_ fun f => Effect.blind_pure _
    simp only [Bool.false_eq_true, if_false]
    split
    · exact Effect.blind_throw _
    · exact (blind_mergeFiles _ _).bind fun merged => Effect.blind_pure _

end Table

end Compaction
