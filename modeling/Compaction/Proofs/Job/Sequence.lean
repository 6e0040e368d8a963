import Compaction.Job.Run
import Compaction.Proofs.Job.Exchange
import Compaction.Proofs.Job.Plan
import Compaction.Proofs.Job.Slices
import Compaction.Proofs.Table.Options
import Compaction.Proofs.Table.Places

/-!
# Units one after another

However the units of a job are dealt out to threads, its fragments are what is made of them one after another, in some
order (`run_eq_ok`), and what changes something is committed at the end (`runUnits_eq_ok`). A task, and a bucket of two
files or more, yields one fragment that replaces all of its files; any other bucket yields none (`WorkUnit.Yields`,
`compactUnits_eq_ok`).
-/

namespace Compaction

variable {t : Table} {s s' : Storage} {mode : BucketMode} {units : List WorkUnit} {fragments : List Fragment}

/-! ### One unit -/

private theorem Manifest.files_filter_key {m : Manifest} (h : (m.map Entry.key).Nodup) (key : BucketKey) :
    Manifest.files (m.filter fun e => e.key = key) = m.filesAt key := by
  by_cases hk : key ∈ m.map Entry.key
  · obtain ⟨e, he, rfl⟩ := List.mem_map.1 hk
    rw [filter_key_eq_singleton h he, filesAt_of_mem h he]
    exact List.flatMap_singleton ..
  · have hnone : m.filter (fun e => e.key = key) = [] := by
      rw [List.filter_eq_nil_iff]
      intro e he he'
      exact hk (of_decide_eq_true he' ▸ List.mem_map_of_mem he)
    rw [hnone, filesAt_eq_nil hk]
    rfl

theorem Storage.files_eq_filesAt (h : (s.manifest.map Entry.key).Nodup) (p : Partition) (bucket : Int) :
    s.files (some p) (some bucket) = s.manifest.filesAt (p.keys, bucket) := by
  rw [← Manifest.files_filter_key h, Storage.files]
  refine congrArg Manifest.files (List.filter_congr fun e _ => ?_)
  simp [Entry.key, eq_comm]

/-- What a writer that is new does with a bucket. -/
theorem BucketWriter.compact_eq_ok {p : Partition} {bucket : Int} {full : Bool} {w : BucketWriter}
    (h : BucketWriter.compact {} t p bucket full s = (.ok w, s')) :
    (w.fragments = [] ∧ s' = s ∧ (t.isWriteOnly ∨
      ∃ files, candidates t (s.files (some p) (some bucket)) full = .ok files ∧ files.length < 2)) ∨
    ∃ files merged, ¬ t.isWriteOnly ∧ candidates t (s.files (some p) (some bucket)) full = .ok files ∧
      2 ≤ files.length ∧ mergeFiles files (highestLevel files + 1) s = (.ok merged, s') ∧
      w.fragments = [{ partition := p, bucket, before := files, after := [merged] }] := by
  unfold compact at h
  simp only [Bool.false_eq_true, if_false] at h
  by_cases hw : t.isWriteOnly
  · rw [if_pos hw] at h
    cases h
    exact Or.inl ⟨rfl, rfl, Or.inl hw⟩
  · rw [if_neg hw, Effect.ofRead_bind] at h
    cases hc : candidates t (s.files (some p) (some bucket)) full with
    | error fault =>
      rw [hc] at h
      cases h
    | ok files =>
      rw [hc] at h
      dsimp only at h
      by_cases hl : files.length < 2
      · rw [if_pos hl] at h
        cases h
        exact Or.inl ⟨rfl, rfl, Or.inr ⟨files, rfl, hl⟩⟩
      · rw [if_neg hl] at h
        obtain ⟨merged, s₁, hmerged, h⟩ := Effect.bind_eq_ok.1 h
        cases h
        exact Or.inr ⟨files, merged, hw, rfl, Nat.le_of_not_lt hl, hmerged, rfl⟩

theorem TaskWriter.compact_eq_ok {task : Task} {f : Fragment} (h : TaskWriter.compact {} task s = (.ok f, s')) :
    ∃ merged, task.files ≠ [] ∧ mergeFiles task.files 0 s = (.ok merged, s') ∧
      f = { partition := task.partition, bucket := 0, before := task.files, after := [merged] } := by
  unfold compact at h
  simp only [Bool.false_eq_true, if_false] at h
  split at h
  · cases h
  · next hfiles =>
    obtain ⟨merged, s₁, hmerged, h⟩ := Effect.bind_eq_ok.1 h
    cases h
    exact ⟨merged, fun hnil => hfiles (List.isEmpty_iff.2 hnil), hmerged, rfl⟩

/-- Whether these are the fragments of a unit of a table that lists `m`. -/
def WorkUnit.Yields (m : Manifest) : WorkUnit → List Fragment → Prop
  | .bucket p b, fragments =>
    if (m.filesAt (p.keys, b)).length < 2 then fragments = []
    else ∃ merged, fragments = [{ partition := p, bucket := b, before := m.filesAt (p.keys, b), after := [merged] }]
  | .task version payload, fragments => ∃ depth task merged, Task.decode depth version payload = .ok task ∧
      fragments = [{ partition := task.partition, bucket := 0, before := task.files, after := [merged] }]

/-- What is made of a task. -/
theorem Table.compactUnit_task_eq_ok {version : Int} {payload : List UInt8} {full : Bool}
    (h : t.compactUnit full (.task version payload) s = (.ok fragments, s')) :
    ∃ task merged, Task.decode s.host.maxDepth version payload = .ok task ∧ task.files ≠ [] ∧
      mergeFiles task.files 0 s = (.ok merged, s') ∧
      fragments = [{ partition := task.partition, bucket := 0, before := task.files, after := [merged] }] := by
  rw [compactUnit, Effect.ofRead_bind] at h
  cases hd : Task.decode s.host.maxDepth version payload with
  | error fault =>
    rw [hd] at h
    cases h
  | ok task =>
    rw [hd] at h
    obtain ⟨f, s₁, hc, h⟩ := Effect.bind_eq_ok.1 h
    cases h
    obtain ⟨merged, hfiles, hmerged, rfl⟩ := TaskWriter.compact_eq_ok hc
    exact ⟨task, merged, rfl, hfiles, hmerged, rfl⟩

/-- Nothing is made of no files. -/
theorem Table.before_of_compactUnit {u : WorkUnit} {full : Bool}
    (h : t.compactUnit full u s = (.ok fragments, s')) : ∀ f ∈ fragments, f.before ≠ [] := by
  cases u with
  | bucket p bucket =>
    obtain ⟨w, s₁, hc, h⟩ := Effect.bind_eq_ok.1 h
    cases h
    rcases BucketWriter.compact_eq_ok hc with ⟨hf, -⟩ | ⟨files, merged, -, -, hl, -, hf⟩
    · rw [BucketWriter.prepare, hf]
      simp
    · rw [BucketWriter.prepare, hf, List.forall_mem_singleton]
      exact List.ne_nil_of_length_pos (Nat.lt_of_lt_of_le Nat.two_pos hl)
  | task version payload =>
    obtain ⟨task, merged, -, hfiles, -, rfl⟩ := compactUnit_task_eq_ok h
    rw [List.forall_mem_singleton]
    exact hfiles

private theorem yields_of_compactUnit (hs : (s.manifest.map Entry.key).Nodup) (hw : ¬ t.isWriteOnly) {u : WorkUnit}
    (h : t.compactUnit true u s = (.ok fragments, s')) : u.Yields s.manifest fragments := by
  cases u with
  | bucket p bucket =>
    obtain ⟨w, s₁, hc, h⟩ := Effect.bind_eq_ok.1 h
    cases h
    have hfull : ∀ files, BucketWriter.candidates t (s.files (some p) (some bucket)) true = .ok files →
        s.manifest.filesAt (p.keys, bucket) = files := by
      intro files hfiles
      cases hfiles
      exact (Storage.files_eq_filesAt hs p bucket).symm
    rcases BucketWriter.compact_eq_ok hc with
      ⟨hf, -, hw' | ⟨files, hfiles, hl⟩⟩ | ⟨files, merged, -, hfiles, hl, -, hf⟩
    · exact absurd hw' hw
    · have hl' : (s.manifest.filesAt (p.keys, bucket)).length < 2 := by rwa [hfull files hfiles]
      rw [WorkUnit.Yields, if_pos hl']
      exact hf
    · have hl' : ¬ (s.manifest.filesAt (p.keys, bucket)).length < 2 := by
        rw [hfull files hfiles]
        exact Nat.not_lt.2 hl
      rw [WorkUnit.Yields, if_neg hl', hfull files hfiles]
      exact ⟨merged, hf⟩
  | task version payload =>
    obtain ⟨task, merged, hd, -, -, hf⟩ := Table.compactUnit_task_eq_ok h
    exact ⟨_, task, merged, hd, hf⟩

/-! ### One after another -/

/-- What is made of units, one after another. -/
def Table.compactUnits (t : Table) : List WorkUnit → Action (List Fragment)
  | [] => return []
  | u :: rest => do return (← t.compactUnit true u) ++ (← t.compactUnits rest)

theorem Table.compactUnits_cons_eq_ok {u : WorkUnit} : t.compactUnits (u :: units) s = (.ok fragments, s') ↔
    ∃ fs s₁ gs, t.compactUnit true u s = (.ok fs, s₁) ∧ t.compactUnits units s₁ = (.ok gs, s') ∧
      fs ++ gs = fragments := by
  rw [compactUnits, Effect.bind_eq_ok]
  constructor
  · rintro ⟨fs, s₁, hu, h⟩
    obtain ⟨gs, s₂, hrest, h⟩ := Effect.bind_eq_ok.1 h
    cases h
    exact ⟨fs, s₁, gs, hu, hrest, rfl⟩
  · rintro ⟨fs, s₁, gs, hu, hrest, rfl⟩
    exact ⟨fs, s₁, hu, Effect.bind_eq_ok.2 ⟨gs, s', hrest, rfl⟩⟩

private theorem Table.compactUnits_append_eq_ok {units' : List WorkUnit} :
    t.compactUnits (units ++ units') s = (.ok fragments, s') ↔
      ∃ fs s₁ gs, t.compactUnits units s = (.ok fs, s₁) ∧ t.compactUnits units' s₁ = (.ok gs, s') ∧
        fs ++ gs = fragments := by
  induction units generalizing s fragments with
  | nil =>
    constructor
    · intro h
      exact ⟨[], s, fragments, rfl, h, rfl⟩
    · rintro ⟨fs, s₁, gs, h, h', rfl⟩
      cases h
      exact h'
  | cons u rest ih =>
    rw [List.cons_append, compactUnits_cons_eq_ok]
    constructor
    · rintro ⟨fs, s₁, gs, hu, h, rfl⟩
      obtain ⟨fs', s₂, gs', hrest, h', rfl⟩ := ih.1 h
      exact ⟨fs ++ fs', s₂, gs', compactUnits_cons_eq_ok.2 ⟨fs, s₁, fs', hu, hrest, rfl⟩, h', List.append_assoc ..⟩
    · rintro ⟨fs, s₂, gs', h, h', rfl⟩
      obtain ⟨fs, s₁, fs', hu, hrest, rfl⟩ := compactUnits_cons_eq_ok.1 h
      exact ⟨fs, s₁, fs' ++ gs', hu, ih.2 ⟨fs', s₂, gs', hrest, h', rfl⟩, (List.append_assoc ..).symm⟩

private theorem Table.blind_compactUnits (t : Table) (units : List WorkUnit) : (t.compactUnits units).Blind := by
  induction units with
  | nil => exact Effect.blind_pure []
  | cons u rest ih =>
    refine (t.blind_compactUnit true u).bind fun fs => ?_
    exact ih.bind fun gs => Effect.blind_pure (fs ++ gs)

private theorem Table.willing_compactUnits (hs : s.host.disk.Willing)
    (h : t.compactUnits units s = (.ok fragments, s')) : s'.host.disk.Willing := by
  have hdisk := (t.blind_compactUnits units).disk_eq s
  rw [h] at hdisk
  have hsame : s'.host.disk = s.host.disk := (congrArg (fun s : Storage => s.host.disk) hdisk).symm
  rwa [hsame]

private theorem Table.compactBuckets_eq_compactUnits (hm : mode.isAssigned) (h : ∀ u ∈ units, u.Fits mode) :
    compactBuckets t mode units {} = t.compactUnits units := by
  induction units with
  | nil => rfl
  | cons u rest ih =>
    rw [List.forall_mem_cons] at h
    cases u with
    | bucket p bucket => rw [compactBuckets_cons, ih h.2, compactUnits]
    | task version payload => exact absurd hm h.1

private theorem Table.carryOutTasks_eq_compactUnits (hm : ¬ mode.isAssigned) (h : ∀ u ∈ units, u.Fits mode) :
    carryOutTasks mode units = t.compactUnits units := by
  induction units with
  | nil => rfl
  | cons u rest ih =>
    rw [List.forall_mem_cons] at h
    cases u with
    | bucket p bucket => exact absurd h.1 hm
    | task version payload => rw [carryOutTasks_cons t, ih h.2, compactUnits]

/-- A worker that can create its spill directories does with the units of a slice what is done with each of them. -/
theorem Table.worker_eq_compactUnits (hs : s.host.disk.Willing) (h : ∀ u ∈ units, u.Fits mode) :
    t.worker mode units s = t.compactUnits units s := by
  unfold worker
  by_cases hm : mode.isAssigned
  · rw [if_pos hm, compactBuckets_eq_compactUnits hm h]
    exact SpillSpace.use_of_willing (t.blind_compactUnits units) hs
  · rw [if_neg hm, carryOutTasks_eq_compactUnits hm h]

/-- What units that are run one after another write and yield. -/
theorem compactUnits_eq_ok (hs : s.Sound t) (hw : ¬ t.isWriteOnly) (hplain : ∀ u ∈ units, u.IsPlain)
    (h : t.compactUnits units s = (.ok fragments, s')) : s.Completes s' fragments ∧
      ∃ parts, parts.flatten = fragments ∧ List.Forall₂ (WorkUnit.Yields s.manifest) units parts := by
  induction units generalizing s fragments with
  | nil =>
    cases h
    exact ⟨.nil hs.numbered, [], rfl, .nil⟩
  | cons u rest ih =>
    rw [List.forall_mem_cons] at hplain
    obtain ⟨fs, s₁, gs, hu, hrest, rfl⟩ := Table.compactUnits_cons_eq_ok.1 h
    have hyields := yields_of_compactUnit hs.manifest.keys hw hu
    rcases compactUnit_cases hs.numbered hs.manifest.nodup t true hplain.1 with
      ⟨fault, s₂, left, e, -⟩ | ⟨fs', s₁', e, hc⟩
    · rw [hu] at e
      cases e
    · rw [hu] at e
      cases e
      obtain ⟨hc', parts, rfl, hparts⟩ := ih (hs.writes hc.writes) hplain.2 hrest
      rw [hc.writes.manifest] at hparts
      exact ⟨hc.append hc', fs :: parts, rfl, .cons hyields hparts⟩

/-! ### Executors -/

namespace Executor

theorem runThreads_eq_ok {slices : List (List WorkUnit)} (hs : s.host.disk.Willing)
    (h : ∀ slice ∈ slices, ∀ u ∈ slice, u.Fits mode) {i : Nat} :
    runThreads (t.worker mode) i slices s = (.ok fragments, s') ↔
      t.compactUnits slices.flatten s = (.ok fragments, s') := by
  -- what is made of a slice does not depend on its number, only the wording of faults does
  induction slices generalizing i s fragments with
  | nil => exact Iff.rfl
  | cons slice rest ih =>
    rw [List.forall_mem_cons] at h
    rw [List.flatten_cons, Table.compactUnits_append_eq_ok, runThreads, Effect.bind_eq_ok]
    constructor
    · rintro ⟨fs, s₁, hslice, hrest⟩
      obtain ⟨gs, s₂, hrest, e⟩ := Effect.bind_eq_ok.1 hrest
      cases e
      rw [Effect.mapFault_eq_ok, Table.worker_eq_compactUnits hs h.1] at hslice
      exact ⟨fs, s₁, gs, hslice, (ih (Table.willing_compactUnits hs hslice) h.2).1 hrest, rfl⟩
    · rintro ⟨fs, s₁, gs, hslice, hrest, rfl⟩
      have hs₁ := Table.willing_compactUnits hs hslice
      refine ⟨fs, s₁, ?_, Effect.bind_eq_ok.2 ⟨gs, s', (ih hs₁ h.2).2 hrest, rfl⟩⟩
      rw [Effect.mapFault_eq_ok, Table.worker_eq_compactUnits hs h.1]
      exact hslice

theorem run_threads_eq_ok {workers : Workers} {sendable : Except Fault Unit} (hs : s.host.disk.Willing)
    (h : ∀ u ∈ units, u.Fits mode) :
    (Executor.threads workers).run units (t.worker mode) sendable s = (.ok fragments, s') ↔
      ∃ n, workers.localCount? units.length = some n ∧
        t.compactUnits (slices units n).flatten s = (.ok fragments, s') := by
  have hslices : ∀ n, ∀ slice ∈ slices units n, ∀ u ∈ slice, u.Fits mode := fun n slice hslice u hu =>
    h u ((flatten_slices_perm units n).subset (List.mem_flatten.2 ⟨slice, hslice, hu⟩))
  simp only [run]
  cases workers.localCount? units.length with
  | none =>
    constructor
    · intro e
      cases e
    · rintro ⟨n, hn, -⟩
      cases hn
  | some n =>
    dsimp only
    rw [runThreads_eq_ok hs (hslices n)]
    constructor
    · intro e
      exact ⟨n, rfl, e⟩
    · rintro ⟨n', hn, e⟩
      cases hn
      exact e

/-- A table's units are run by threads only, one after another in some order. -/
theorem run_eq_ok {executor : Executor} (hs : s.host.disk.Willing) (h : ∀ u ∈ units, u.Fits mode)
    (hrun : executor.run units (t.worker mode) t.sendable s = (.ok fragments, s')) :
    ∃ units', units'.Perm units ∧ t.compactUnits units' s = (.ok fragments, s') := by
  cases executor with
  | threads workers =>
    obtain ⟨n, -, e⟩ := (run_threads_eq_ok hs h).1 hrun
    exact ⟨_, flatten_slices_perm units n, e⟩
  | engine engine workers =>
    cases units with
    | nil =>
      cases hrun
      exact ⟨[], .refl _, rfl⟩
    | cons u rest => cases hrun

end Executor

/-! ### Jobs -/

/-- A job that succeeds has nothing to commit, or all that its units yield is committed as one snapshot. -/
theorem Table.runUnits_eq_ok {executor : Executor} {user : String} {report report' : Report}
    (hs : s.host.disk.Willing) (hunits : ∀ u ∈ units, u.Fits t.mode)
    (h : t.runUnits executor user units report s = (.ok report', s')) :
    ∃ units' fragments s₁, units'.Perm units ∧ t.compactUnits units' s = (.ok fragments, s₁) ∧
      ((changesOf fragments = [] ∧ report'.status = .skipped ∧ s' = s₁) ∨
        (changesOf fragments ≠ [] ∧ s₁.Accepts (changesOf fragments) ∧ report'.status = .completed ∧
          s' = s₁.withSnapshot user "COMPACT" (s₁.manifest.committed (changesOf fragments)))) := by
  obtain ⟨fragments, s₁, hrun, h⟩ := Effect.bind_eq_ok.1 h
  obtain ⟨snapshot, s₂, hcommit, h⟩ := Effect.bind_eq_ok.1 h
  obtain ⟨units', hperm, hunits'⟩ := Executor.run_eq_ok hs hunits hrun
  refine ⟨units', fragments, s₁, hperm, hunits', ?_⟩
  rcases t.commitFragments_cases user fragments s₁ with ⟨-, fault, e⟩ | ⟨hnone, e⟩ | ⟨hsome, haccepts, e⟩
  · rw [hcommit] at e
    cases e
  · rw [hcommit] at e
    cases e
    cases h
    exact Or.inl ⟨hnone, rfl, rfl⟩
  · rw [hcommit] at e
    cases e
    cases h
    exact Or.inr ⟨hsome, haccepts, rfl, rfl⟩

/-- A job whose fragments are accepted succeeds. -/
theorem Table.runUnits_of_accepts {executor : Executor}
    (hrun : executor.run units (t.worker t.mode) t.sendable s = (.ok fragments, s'))
    (haccepts : s'.Accepts (changesOf fragments)) (user : String) (start : Report) :
    (changesOf fragments = [] ∧
      ∃ report, t.runUnits executor user units start s = (.ok report, s') ∧ report.status = .skipped) ∨
    (changesOf fragments ≠ [] ∧ ∃ report, t.runUnits executor user units start s =
      (.ok report, s'.withSnapshot user "COMPACT" (s'.manifest.committed (changesOf fragments)))) := by
  rw [runUnits, Effect.bind_of_ok hrun]
  rcases t.commitFragments_cases user fragments s' with ⟨hrefused, -⟩ | ⟨hnone, e⟩ | ⟨hsome, -, e⟩
  · exact absurd haccepts hrefused
  · rw [Effect.bind_of_ok e]
    exact Or.inl ⟨hnone, _, rfl, rfl⟩
  · rw [Effect.bind_of_ok e]
    exact Or.inr ⟨hsome, _, rfl⟩

/-- The report of a compaction that has not done anything yet. -/
def Table.started (t : Table) (r : Request) : Report :=
  { table := t.name, strategy := r.strategy, mode := some t.mode, partitions := r.partitions }

/-- A compaction without sorting runs the units that are planned for the table, if there are any. -/
theorem Table.compact_eq {r : Request} (hr : r.strategy = .none) (executor : Executor) (user : String) (s : Storage) :
    t.compact executor user r s = match t.plan s r with
      | .error fault => (.error fault, s)
      | .ok units =>
        if units.isEmpty then (.ok { t.started r with status := .skipped }, s)
        else t.forCompaction.runUnits executor user units (t.started r) s := by
  unfold compact
  dsimp only
  rw [if_pos hr, Effect.ofRead_bind, plan_forCompaction]
  cases t.plan s r with
  | error fault => rfl
  | ok units =>
    dsimp only
    split <;> rfl

/-- A compaction without sorting has nothing to do, or it is a job of its units. -/
theorem Table.compact_of_plan {r : Request} (hr : r.strategy = .none) (hplan : t.plan s r = .ok units)
    (executor : Executor) (user : String) :
    (units = [] ∧ t.compact executor user r s = (.ok { t.started r with status := .skipped }, s)) ∨
    (units ≠ [] ∧ t.compact executor user r s = t.forCompaction.runUnits executor user units (t.started r) s) := by
  rw [compact_eq hr, hplan]
  dsimp only
  by_cases hnone : units.isEmpty
  · rw [if_pos hnone]
    exact Or.inl ⟨List.isEmpty_iff.1 hnone, rfl⟩
  · rw [if_neg hnone]
    exact Or.inr ⟨fun hnil => hnone (List.isEmpty_iff.2 hnil), rfl⟩

theorem Table.compact_eq_ok {executor : Executor} {user : String} {r : Request} {report : Report}
    (hr : r.strategy = .none) (h : t.compact executor user r s = (.ok report, s')) :
    ∃ units, t.plan s r = .ok units ∧
      ((units = [] ∧ report = { t.started r with status := .skipped } ∧ s' = s) ∨
        (units ≠ [] ∧ t.forCompaction.runUnits executor user units (t.started r) s = (.ok report, s'))) := by
  cases hplan : t.plan s r with
  | error fault =>
    rw [compact_eq hr, hplan] at h
    cases h
  | ok units =>
    refine ⟨units, rfl, ?_⟩
    rcases compact_of_plan hr hplan executor user with ⟨hnone, e⟩ | ⟨hsome, e⟩
    · rw [h] at e
      cases e
      exact Or.inl ⟨hnone, rfl, rfl⟩
    · exact Or.inr ⟨hsome, e ▸ h⟩

end Compaction
