import Compaction.Proofs.History.Rewriting
import Mathlib

/-!
# Planned tasks

What is planned for a bucket is told by its candidates, the files below the target size or all of them
(`Entry.Plans`): nothing if they are too few, and otherwise tasks that take them in their order and leave out at most
the last one. The tasks of a whole table are those of the buckets that are selected, one bucket after another, and no
file is in two of them (`planTasks_complete`).
-/

namespace Compaction

/-- Whether tasks are those that are to be planned for a bucket. -/
structure Entry.Plans (target least most : Int) (full : Bool) (e : Entry) (tasks : List Task) : Prop where
  partition : ∀ task ∈ tasks, task.partition = e.partition
  files : ∀ task ∈ tasks, task.files.Sublist (e.candidates target full)
  two_le : ∀ task ∈ tasks, 2 ≤ task.files.length
  le_most : ∀ task ∈ tasks, (task.files.length : Int) ≤ max 2 most
  few : ((e.candidates target full).length : Int) < fewestCandidates least full → tasks = []
  enough : fewestCandidates least full ≤ (e.candidates target full).length → tasks.flatMap Task.files =
    if ((e.candidates target full).length : Int) % max 2 most = 1 then (e.candidates target full).dropLast
    else e.candidates target full

variable {t : Table} {target least most : Int}

namespace Table

private theorem plans_entryTasks (target least most : Int) (full : Bool) (e : Entry) :
    e.Plans target least most full (entryTasks target least (max 2 most) full e) := by
  constructor
  · exact fun task htask => partition_of_entryTasks htask
  · intro task htask
    obtain ⟨files, hfiles, -, rfl⟩ := exists_chunk_of_entryTasks htask
    exact chunks_sublist hfiles
  · exact fun task htask => two_le_length_of_entryTasks htask
  · intro task htask
    obtain ⟨files, hfiles, -, rfl⟩ := exists_chunk_of_entryTasks htask
    have hle := length_le_of_mem_chunks hfiles
    show (files.length : Int) ≤ max 2 most
    omega
  · intro hfew
    rw [entryTasks_eq, if_pos hfew]
  · intro henough
    have hmod : ((e.candidates target full).length : Int) % max 2 most = 1 ↔
        (e.candidates target full).length % (max 2 most).toNat = 1 := by
      have hnat : ((max 2 most).toNat : Int) = max 2 most := Int.toNat_of_nonneg (by omega)
      rw [← hnat]
      norm_cast
    rw [entryTasks_eq, if_neg (by omega), List.flatMap_map, List.flatMap_id', flatten_long_chunks (by omega)]
    exact if_congr hmod.symm rfl rfl

private theorem planTasks_eq (htarget : t.targetFileSize = .ok target) (hleast : t.minFiles = .ok least)
    (hmost : t.maxFiles = .ok most) (s : Storage) (full : Bool) (predicate : Option Predicate) :
    t.planTasks s full predicate =
      (s.scan predicate).map fun selected => selected.flatMap (entryTasks target least (max 2 most) full) := by
  unfold planTasks
  rw [htarget, hleast, hmost]
  change (s.scan predicate >>= fun selected => .ok (selected.flatMap _)) = _
  cases s.scan predicate <;> rfl

end Table

/-- Whatever a table that began empty has come to, planning tasks for some of its buckets gives the ones that are to be
planned for each, and no file is planned for twice. It fails only if the buckets cannot be selected. -/
theorem World.planTasks_complete {w : World} (hw : w.Reached t) (htarget : t.targetFileSize = .ok target)
    (hleast : t.minFiles = .ok least) (hmost : t.maxFiles = .ok most) (full : Bool) (predicate : Option Predicate) :
    (∀ fault, w.storage.scan predicate = .error fault → t.planTasks w.storage full predicate = .error fault) ∧
    ∀ selected, w.storage.scan predicate = .ok selected → ∃ parts : List (List Task),
      t.planTasks w.storage full predicate = .ok parts.flatten ∧
      List.Forall₂ (Entry.Plans target least most full) selected parts ∧
      (parts.flatten.flatMap Task.files).Nodup := by
  have hplan := Table.planTasks_eq htarget hleast hmost w.storage full predicate
  constructor
  · intro fault hscan
    rw [hplan, hscan]
    rfl
  · intro selected hscan
    rw [hscan] at hplan
    refine ⟨selected.map (Table.entryTasks target least (max 2 most) full), hplan, ?_, ?_⟩
    · rw [List.forall₂_map_right_iff, List.forall₂_same]
      exact fun e _ => Table.plans_entryTasks target least most full e
    · exact hw.sound.storage.manifest.nodup.sublist (Table.supplies_of_planTasks hplan).files

/-- Of three small files in one bucket the last one is left alone if a task takes two. -/
theorem World.planTasks_complete_of_three_files :
    let t : Table := ⟨"t", ["dt"], .unaware, 1, [], [("target-file-size", "1000"), ("compaction.min.file-num", "-3"),
      ("compaction.max.file-num", "1")]⟩
    let append (n : Int) : Event := .append [] [[("dt", .int 1), ("v", .int n)]] none "u"
    let s := (run t [append 1, append 2, append 3]).storage
    ∃ parts : List (List Task), t.planTasks s false none = .ok parts.flatten ∧
      List.Forall₂ (Entry.Plans 1000 (-3) 1 false) s.manifest parts ∧ (parts.flatten.flatMap Task.files).Nodup ∧
      parts.flatten.map (·.files.map DataFile.name) = [[.text "data-000000.json", .text "data-000001.json"]] := by
  intro t append s
  have htarget : t.targetFileSize = .ok 1000 := by cbv
  have hleast : t.minFiles = .ok (-3) := by cbv
  have hmost : t.maxFiles = .ok 1 := by cbv
  have hreached : (run t [append 1, append 2, append 3]).Reached t := reached_run t _
  obtain ⟨parts, hplan, hall, hnodup⟩ := (planTasks_complete hreached htarget hleast hmost false none).2 _ rfl
  have hnames : (t.planTasks s false none).toOption.map (·.map (·.files.map DataFile.name)) =
      some [[.text "data-000000.json", .text "data-000001.json"]] := by decide +kernel
  rw [show t.planTasks s false none = .ok parts.flatten from hplan] at hnames
  exact ⟨parts, hplan, hall, hnodup, Option.some.inj hnames⟩

end Compaction
