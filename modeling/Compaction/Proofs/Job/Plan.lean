import Compaction.Proofs.Job.Merge
import Compaction.Proofs.Table.Chunks
import Compaction.Proofs.Table.Selection

/-!
# Planned units

A plan is one of buckets or one of encoded tasks (`plan_cases`). Each task is a chunk of the candidates of one bucket
(`entryTasks_eq`), and no two tasks share a file (`Manifest.Supplies`). So the units are such as the table's workers are
for, and no task names a file twice, which is the same after decoding (`isPlain_of_plan`).
-/

namespace Compaction

/-- The unit that a bucket is compacted as. -/
def Entry.unit (e : Entry) : WorkUnit := .bucket e.partition e.bucket

/-- The files of a bucket that may be merged. -/
def Entry.candidates (target : Int) (full : Bool) (e : Entry) : List DataFile :=
  if full then e.files else e.files.filter (·.size < target)

/-- How many candidates a bucket must have for any task. -/
def fewestCandidates (least : Int) (full : Bool) : Int := if full then 2 else max 2 least

/-- Whether tasks are for files that a manifest lists: each for files of one bucket, and no two for the same file. -/
structure Manifest.Supplies (m : Manifest) (tasks : List Task) : Prop where
  bucket : ∀ task ∈ tasks, ∃ e ∈ m, task.partition = e.partition ∧ task.files.Sublist e.files
  files : (tasks.flatMap Task.files).Sublist m.files

theorem Entry.candidates_sublist (target : Int) (full : Bool) (e : Entry) :
    (e.candidates target full).Sublist e.files := by
  unfold candidates
  split
  · exact .refl _
  · exact List.filter_sublist

theorem Storage.scan_sublist {s : Storage} {predicate : Option Predicate} {m : Manifest}
    (h : s.scan predicate = .ok m) : m.Sublist s.manifest := by
  obtain ⟨-, rfl⟩ := scan_eq_ok.1 h
  exact List.filter_sublist

namespace Table

variable {t : Table} {s : Storage} {r : Request} {units : List WorkUnit} {task : Task} {tasks : List Task}

/-- A bucket with enough candidates has a task for each chunk of two or more of them. Two are needed anyway, as a task
of a single file is never planned. -/
theorem entryTasks_eq (target least most : Int) (full : Bool) (e : Entry) : entryTasks target least most full e =
    if ((e.candidates target full).length : Int) < fewestCandidates least full then []
    else ((chunks most.toNat (e.candidates target full)).filter (2 ≤ ·.length)).map
      fun files => ⟨e.partition, files⟩ := by
  have hcandidates : (if full then e.files else e.files.filter (·.size < target)) = e.candidates target full := rfl
  dsimp only [entryTasks]
  rw [hcandidates]
  generalize e.candidates target full = candidates
  by_cases hshort : candidates.length < 2
  · have hnone : (chunks most.toNat candidates).filter (2 ≤ ·.length) = [] := by
      rw [List.filter_eq_nil_iff]
      intro chunk hchunk hlong
      have hle := (chunks_sublist hchunk).length_le
      have hlong := of_decide_eq_true hlong
      omega
    rw [hnone, List.map_nil, ite_self, ite_self]
  · have hsame : (candidates.length : Int) < (if full then 2 else least) ↔
        (candidates.length : Int) < fewestCandidates least full := by
      cases full with
      | true => exact Iff.rfl
      | false =>
        simp only [fewestCandidates, Bool.false_eq_true, if_false]
        omega
    exact if_congr hsame rfl rfl

/-- What a task of a bucket is made of. -/
theorem exists_chunk_of_entryTasks {target least most : Int} {full : Bool} {e : Entry}
    (h : task ∈ entryTasks target least most full e) :
    ∃ files ∈ chunks most.toNat (e.candidates target full), 2 ≤ files.length ∧ task = ⟨e.partition, files⟩ := by
  rw [entryTasks_eq] at h
  split at h
  · cases h
  · obtain ⟨files, hfiles, rfl⟩ := List.mem_map.1 h
    obtain ⟨hfiles, hlong⟩ := List.mem_filter.1 hfiles
    exact ⟨files, hfiles, by simpa using hlong, rfl⟩

theorem partition_of_entryTasks {target least most : Int} {full : Bool} {e : Entry}
    (h : task ∈ entryTasks target least most full e) : task.partition = e.partition := by
  obtain ⟨files, -, -, rfl⟩ := exists_chunk_of_entryTasks h
  rfl

theorem two_le_length_of_entryTasks {target least most : Int} {full : Bool} {e : Entry}
    (h : task ∈ entryTasks target least most full e) : 2 ≤ task.files.length := by
  obtain ⟨files, -, hlong, rfl⟩ := exists_chunk_of_entryTasks h
  exact hlong

private theorem files_entryTasks (target least most : Int) (full : Bool) (e : Entry) :
    ((entryTasks target least most full e).flatMap Task.files).Sublist e.files := by
  rw [entryTasks_eq]
  split
  · exact List.nil_sublist _
  · have hlong : ((chunks most.toNat (e.candidates target full)).filter (2 ≤ ·.length)).flatten.Sublist
        (chunks most.toNat (e.candidates target full)).flatten := List.filter_sublist.flatten
    rw [List.flatMap_map, List.flatMap_id']
    exact (hlong.trans (flatten_chunks_sublist _ _)).trans (e.candidates_sublist target full)

theorem planTasks_eq_ok {full : Bool} {predicate : Option Predicate} (h : t.planTasks s full predicate = .ok tasks) :
    ∃ target least most m, t.targetFileSize = .ok target ∧ t.minFiles = .ok least ∧ 2 ≤ most ∧
      s.scan predicate = .ok m ∧ m.flatMap (entryTasks target least most full) = tasks := by
  obtain ⟨target, htarget, h⟩ := Except.bind_eq_ok.1 h
  obtain ⟨least, hleast, h⟩ := Except.bind_eq_ok.1 h
  obtain ⟨most, -, h⟩ := Except.bind_eq_ok.1 h
  obtain ⟨m, hm, h⟩ := Except.bind_eq_ok.1 h
  cases h
  exact ⟨target, least, max 2 most, m, htarget, hleast, by omega, hm, rfl⟩

theorem supplies_of_planTasks {full : Bool} {predicate : Option Predicate}
    (h : t.planTasks s full predicate = .ok tasks) : s.manifest.Supplies tasks := by
  obtain ⟨target, least, most, m, -, -, -, hm, rfl⟩ := planTasks_eq_ok h
  have hsub := Storage.scan_sublist hm
  constructor
  · intro task htask
    obtain ⟨e, he, htask⟩ := List.mem_flatMap.1 htask
    have hfiles : task.files.Sublist e.files :=
      (List.sublist_flatten_of_mem (List.mem_map_of_mem htask)).trans (files_entryTasks target least most full e)
    exact ⟨e, hsub.subset he, partition_of_entryTasks htask, hfiles⟩
  · rw [List.flatMap_assoc]
    exact (List.Sublist.flatMap_right m fun e _ => files_entryTasks target least most full e).trans (hsub.flatMap _)

/-- On a table of assigned buckets a plan is one of buckets, on a table without them it is one of tasks. -/
theorem plan_cases (h : t.plan s r = .ok units) :
    (t.mode.isAssigned ∧ ∃ entries : List Entry, entries.Sublist s.manifest ∧ units = entries.map Entry.unit) ∨
    (¬ t.mode.isAssigned ∧ ∃ tasks, s.manifest.Supplies tasks ∧ tasks.mapM encodeTask = .ok units) := by
  unfold plan at h
  split at h
  · cases h
    by_cases hm : t.mode.isAssigned
    · exact Or.inl ⟨hm, [], List.nil_sublist _, rfl⟩
    · exact Or.inr ⟨hm, [], ⟨by simp, List.nil_sublist _⟩, rfl⟩
  · obtain ⟨predicate, -, h⟩ := Except.bind_eq_ok.1 h
    have hbuckets : planBuckets s predicate = .ok units →
        ∃ entries : List Entry, entries.Sublist s.manifest ∧ units = entries.map Entry.unit := by
      intro h
      obtain ⟨m, hm, h⟩ := Except.bind_eq_ok.1 h
      cases h
      exact ⟨m, Storage.scan_sublist hm, rfl⟩
    unfold unitsUnder at h
    cases hmode : t.mode with
    | fixed => exact Or.inl ⟨rfl, hbuckets (by simpa [hmode] using h)⟩
    | dynamic => exact Or.inl ⟨rfl, hbuckets (by simpa [hmode] using h)⟩
    | unaware =>
      simp only [hmode] at h
      obtain ⟨tasks, htasks, h⟩ := Except.bind_eq_ok.1 h
      exact Or.inr ⟨by decide, tasks, supplies_of_planTasks htasks, h⟩
    | crossPartition =>
      simp [hmode] at h

theorem encodeTask_eq_ok {u : WorkUnit} (h : encodeTask task = .ok u) : ∃ version payload, u = .task version payload ∧
    ∀ depth, Task.decode depth version payload =
      .ok { task with partition := task.partition.map Value.unmarked } := by
  obtain ⟨payload, hp, h⟩ := Except.bind_eq_ok.1 h
  cases h
  exact ⟨_, payload, rfl, Task.decode_encode hp⟩

/-- No planned task names a file twice, and every planned unit is one for a table of its mode. -/
theorem isPlain_of_plan (h : t.plan s r = .ok units) (hn : s.manifest.files.Nodup) :
    ∀ u ∈ units, u.IsPlain ∧ u.Fits t.mode := by
  intro u hu
  rcases plan_cases h with ⟨hm, entries, -, rfl⟩ | ⟨hm, tasks, hsupplies, h⟩
  · obtain ⟨e, -, rfl⟩ := List.mem_map.1 hu
    exact ⟨trivial, hm⟩
  · obtain ⟨task, htask, henc⟩ := Except.exists_of_mapM_eq_ok h hu
    obtain ⟨version, payload, rfl, hdecode⟩ := encodeTask_eq_ok henc
    obtain ⟨e, he, -, hfiles⟩ := hsupplies.bucket task htask
    refine ⟨fun depth task' hd => ?_, hm⟩
    rw [hdecode depth] at hd
    cases hd
    exact hn.sublist (hfiles.trans (Manifest.files_sublist he))

end Table

end Compaction
