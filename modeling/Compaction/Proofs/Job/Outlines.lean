import Compaction.Proofs.Job.Sequence
import Compaction.Proofs.Job.Tasks
import Compaction.Proofs.Table.Outlines

/-!
# Units up to the names of merged files

No planned unit fails on a sound table, and what is made of it is known beforehand up to the name of the merged file
(`WorkUnit.outlines`, `exists_compactUnit`). Running units only writes files that no snapshot lists, so the outlines of
later units stay the same (`outlines_of_writes`), and those of a job are those of its units one after another
(`exists_compactUnits`).
-/

namespace Compaction

/-- What is seen of the file that some files are merged into. -/
def Storage.mergedView (s : Storage) (files : List DataFile) (level : Int) : FileView :=
  let rows := files.flatMap s.rowsOf
  ⟨level, rows.length, Number.total (rows.map Row.size), rows⟩

namespace WorkUnit

/-- The outlines of what is made of a unit: a task, and a bucket of two files or more, has one. -/
def outlines (s : Storage) : WorkUnit → List Outline
  | .bucket p b =>
    let files := s.manifest.filesAt (p.keys, b)
    if files.length < 2 then [] else [⟨p, b, files, [s.mergedView files (BucketWriter.highestLevel files + 1)]⟩]
  | .task version payload =>
    match Task.decode s.host.maxDepth version payload with
    | .ok t => [⟨t.partition, 0, t.files, [s.mergedView t.files 0]⟩]
    | .error _ => []

/-- Whether a unit, if it is a task, can be decoded and names some files, which are all stored and have a text. -/
def Ready (s : Storage) : WorkUnit → Prop
  | .bucket _ _ => True
  | .task version payload => ∃ task, Task.decode s.host.maxDepth version payload = .ok task ∧ task.files ≠ [] ∧
    (∀ f ∈ task.files, s.Stores f) ∧ ∀ f ∈ task.files, ∀ r ∈ s.rowsOf f, r.prints

end WorkUnit

variable {t : Table} {s s' : Storage} {u : WorkUnit} {units : List WorkUnit} {files : List DataFile} {r : Request}

private theorem Storage.mergedView_of_extends (h : s.Extends s') (hst : ∀ f ∈ files, s.Stores f) (level : Int) :
    s'.mergedView files level = s.mergedView files level := by
  rw [mergedView, h.flatMap_rowsOf hst, mergedView]

private theorem Storage.Sound.stored_filesAt (hs : s.Sound t) (key : BucketKey) :
    ∀ f ∈ s.manifest.filesAt key, s.Stores f :=
  fun f hf => hs.manifest.stored f (Manifest.mem_files_of_mem_filesAt hf)

/-! ### Planned units -/

/-- Every planned unit can be run. -/
theorem ready_of_plan (hs : s.Sound t) (hr : r.strategy = .none) (h : t.plan s r = .ok units) :
    ∀ u ∈ units, u.Ready s := by
  intro u hu
  rcases Table.plan_cases h with ⟨-, entries, -, rfl⟩ | ⟨hm, -⟩
  · obtain ⟨e, -, rfl⟩ := List.mem_map.1 hu
    exact trivial
  · cases hmode : t.mode with
    | fixed => exact absurd (hmode ▸ rfl) hm
    | dynamic => exact absurd (hmode ▸ rfl) hm
    | crossPartition =>
      unfold Table.plan at h
      rw [if_neg (by simp [hr])] at h
      obtain ⟨predicate, -, h⟩ := Except.bind_eq_ok.1 h
      simp [Table.unitsUnder, hmode] at h
    | unaware =>
      rw [Table.plan_unaware hmode hr] at h
      obtain ⟨tasks, htasks, hunits⟩ := Except.bind_eq_ok.1 h
      obtain ⟨predicate, -, hplanned⟩ := Except.bind_eq_ok.1 htasks
      obtain ⟨task, htask, henc⟩ := Except.exists_of_mapM_eq_ok hunits hu
      obtain ⟨version, payload, rfl, hdecode⟩ := Table.encodeTask_eq_ok henc
      obtain ⟨e, he, -, hfiles⟩ := (Table.supplies_of_planTasks hplanned).bucket task htask
      have hlong := Table.two_le_length_of_tasksFor htasks task htask
      have hlive : ∀ f ∈ task.files, f ∈ s.manifest.files := fun f hf => Manifest.mem_files.2 ⟨e, he, hfiles.subset hf⟩
      refine ⟨_, hdecode _, ?_, fun f hf => hs.manifest.stored f (hlive f hf), fun f hf =>
        hs.manifest.printed f (hlive f hf)⟩
      exact List.length_pos_iff.1 (Nat.lt_of_lt_of_le Nat.zero_lt_two hlong)

/-! ### One unit -/

private theorem mergeFiles_of_stored (hs : s.Numbered) (hst : ∀ f ∈ files, s.Stores f)
    (hprints : ∀ f ∈ files, ∀ r ∈ s.rowsOf f, r.prints) (level : Int) :
    ∃ merged s', mergeFiles files level s = (.ok merged, s') ∧ s'.view merged = s.mergedView files level := by
  have hrows : ∀ r ∈ files.flatMap s.rowsOf, r.prints := by
    intro r hr
    obtain ⟨f, hf, hr⟩ := List.mem_flatMap.1 hr
    exact hprints f hf r hr
  rw [mergeFiles, Effect.ofRead_bind, Storage.read_eq_ok.2 ⟨hst, rfl⟩]
  rcases Storage.writeFile_cases (files.flatMap s.rowsOf) level s with ⟨-, e⟩ | ⟨hnot, -⟩
  · refine ⟨_, _, e, ?_⟩
    rw [Storage.view, Storage.rowsOf_storeFile _ level hs]
    rfl
  · exact absurd hrows hnot

theorem exists_compactUnit (hs : s.Sound t) (hw : ¬ t.isWriteOnly) (hu : u.Ready s) :
    ∃ fs s', t.compactUnit true u s = (.ok fs, s') ∧ fs.map (Fragment.outline s') = u.outlines s := by
  cases u with
  | bucket p b =>
    rw [Table.compactUnit, BucketWriter.compact]
    simp only [Bool.false_eq_true, if_false]
    rw [if_neg hw, bind_assoc, Effect.ofRead_bind, BucketWriter.candidates, if_pos rfl]
    dsimp only
    rw [Storage.files_eq_filesAt hs.manifest.keys, WorkUnit.outlines]
    by_cases hl : (s.manifest.filesAt (p.keys, b)).length < 2
    · rw [if_pos hl, if_pos hl]
      exact ⟨_, _, rfl, rfl⟩
    · obtain ⟨merged, s', e, hview⟩ := mergeFiles_of_stored hs.numbered (hs.stored_filesAt (p.keys, b))
        (fun f hf => hs.manifest.printed f (Manifest.mem_files_of_mem_filesAt hf))
        (BucketWriter.highestLevel (s.manifest.filesAt (p.keys, b)) + 1)
      rw [if_neg hl, if_neg hl, bind_assoc, Effect.bind_of_ok e, ← hview]
      exact ⟨_, _, rfl, rfl⟩
  | task version payload =>
    obtain ⟨task, hdecode, hsome, hst, hprints⟩ := hu
    obtain ⟨merged, s', e, hview⟩ := mergeFiles_of_stored hs.numbered hst hprints 0
    rw [Table.compactUnit, WorkUnit.outlines, hdecode, Effect.ofRead_bind, hdecode]
    unfold TaskWriter.compact
    dsimp only
    rw [if_neg (by simpa using hsome), ← hview]
    simp only [Bool.false_eq_true, if_false, bind_assoc]
    rw [Effect.bind_of_ok e]
    exact ⟨_, _, rfl, rfl⟩

theorem WorkUnit.Ready.of_writes (hu : u.Ready s) (h : s.Writes s' files) : u.Ready s' := by
  cases u with
  | bucket p b => exact trivial
  | task version payload =>
    obtain ⟨task, hdecode, hsome, hst, hprints⟩ := hu
    refine ⟨task, ?_, hsome, fun f hf => h.extends_.stores (hst f hf), fun f hf => ?_⟩
    · rw [h.host]
      exact hdecode
    · rw [h.extends_.rowsOf_eq (hst f hf)]
      exact hprints f hf

/-- What is to be made of a unit does not depend on the files that are written before. -/
theorem WorkUnit.outlines_of_writes (hs : s.Sound t) (hu : u.Ready s) (h : s.Writes s' files) :
    u.outlines s' = u.outlines s := by
  cases u with
  | bucket p b =>
    have hview := Storage.mergedView_of_extends h.extends_ (hs.stored_filesAt (p.keys, b))
    rw [outlines, h.manifest, hview, outlines]
  | task version payload =>
    obtain ⟨task, hdecode, hsome, hst, -⟩ := hu
    rw [outlines, h.host, hdecode, outlines, hdecode]
    dsimp only
    rw [Storage.mergedView_of_extends h.extends_ hst]

/-! ### One after another -/

/-- What is made of a unit that is ready completes the storage. -/
theorem exists_completes (hs : s.Sound t) (hw : ¬ t.isWriteOnly) (hplain : u.IsPlain) (hready : u.Ready s) :
    ∃ fs s', t.compactUnit true u s = (.ok fs, s') ∧ s.Completes s' fs ∧
      fs.map (Fragment.outline s') = u.outlines s := by
  obtain ⟨fs, s', hmade, houtlines⟩ := exists_compactUnit hs hw hready
  rcases compactUnit_cases hs.numbered hs.manifest.nodup t true hplain with ⟨fault, s'', left, e, -⟩ | ⟨fs', s'', e, hc⟩
  · rw [hmade] at e
    cases e
  · rw [hmade] at e
    cases e
    exact ⟨fs, s', hmade, hc, houtlines⟩

/-- Units that are ready are run without a fault, and their fragments have the outlines that they have at the start. -/
theorem exists_compactUnits (hs : s.Sound t) (hw : ¬ t.isWriteOnly) (hplain : ∀ u ∈ units, u.IsPlain)
    (hready : ∀ u ∈ units, u.Ready s) : ∃ fragments s', t.compactUnits units s = (.ok fragments, s') ∧
      s.Completes s' fragments ∧ fragments.map (Fragment.outline s') = units.flatMap (WorkUnit.outlines s) := by
  induction units generalizing s with
  | nil => exact ⟨[], s, rfl, .nil hs.numbered, rfl⟩
  | cons u rest ih =>
    rw [List.forall_mem_cons] at hplain hready
    obtain ⟨fs, s₁, hfirst, hc, houtlines⟩ := exists_completes hs hw hplain.1 hready.1
    obtain ⟨gs, s₂, hrest, hc', houtlines'⟩ := ih (hs.writes hc.writes) hplain.2
      fun u hu => (hready.2 u hu).of_writes hc.writes
    refine ⟨fs ++ gs, s₂, Table.compactUnits_cons_eq_ok.2 ⟨fs, s₁, gs, hfirst, hrest, rfl⟩, hc.append hc', ?_⟩
    -- neither the fragments so far nor the units to come look different to the files that are written for the others
    have hearlier : fs.map (Fragment.outline s₂) = fs.map (Fragment.outline s₁) :=
      List.map_congr_left fun f hf => Fragment.outline_of_extends hc'.writes.extends_ (hc.merges f hf).after
    have hlater : rest.flatMap (WorkUnit.outlines s₁) = rest.flatMap (WorkUnit.outlines s) :=
      List.flatMap_congr fun u hu => WorkUnit.outlines_of_writes hs (hready.2 u hu) hc.writes
    rw [List.map_append, List.flatMap_cons, hearlier, houtlines, houtlines', hlater]

/-- What is made of a unit replaces files. -/
private theorem WorkUnit.ne_nil_of_mem_outlines (hu : u.Ready s) {o : Outline} (ho : o ∈ u.outlines s) :
    o.before ≠ [] ∧ o.after ≠ [] := by
  cases u with
  | bucket p b =>
    rw [outlines] at ho
    split at ho
    · cases ho
    · next hl =>
      obtain rfl := List.mem_singleton.1 ho
      refine ⟨?_, by simp⟩
      exact List.length_pos_iff.1 (Nat.lt_of_lt_of_le Nat.zero_lt_two (Nat.le_of_not_lt hl))
  | task version payload =>
    obtain ⟨task, hdecode, hsome, -⟩ := hu
    rw [outlines, hdecode] at ho
    obtain rfl := List.mem_singleton.1 ho
    exact ⟨hsome, by simp⟩

theorem replaces_of_outlines {fragments : List Fragment} (hready : ∀ u ∈ units, u.Ready s)
    (hc : s.Completes s' fragments)
    (h : (fragments.map (Fragment.outline s')) = units.flatMap (WorkUnit.outlines s)) :
    ∀ f ∈ fragments, f.Replaces := by
  intro f hf
  have ho := List.mem_map_of_mem (f := Fragment.outline s') hf
  rw [h] at ho
  obtain ⟨u, hu, ho⟩ := List.mem_flatMap.1 ho
  obtain ⟨hbefore, hafter⟩ := WorkUnit.ne_nil_of_mem_outlines (hready u hu) ho
  exact ⟨(hc.merges f hf).added, hbefore, fun hnil => hafter (List.map_eq_nil_iff.2 hnil)⟩

end Compaction
