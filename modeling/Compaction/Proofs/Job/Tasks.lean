import Compaction.Proofs.Job.Plan
import Compaction.Proofs.Job.Sequence
import Compaction.Proofs.Table.Options

/-!
# Tasks of a job

A request on a table without assigned buckets comes to tasks of two files or more each, and to none exactly if no
bucket that it selects has enough files below the target size (`tasksFor_eq_nil_iff`). When the tasks are run, each of
them is carried out once: its files are replaced by a single one (`exists_carriedOut`).
-/

namespace Compaction

namespace Table

/-- The tasks that a request comes to on a table without assigned buckets. -/
def tasksFor (t : Table) (s : Storage) (r : Request) : Except Fault (List Task) := do
  t.planTasks s false (← t.bindFilter r.filter)

/-- Whether no bucket that a filter selects has enough files below the target size. -/
def Settled (t : Table) (filter : Option Filter) (target least : Int) (s : Storage) : Prop :=
  ∀ e ∈ s.manifest, t.selects filter e.partition → ((e.files.filter (·.size < target)).length : Int) < max 2 least

variable {t : Table} {s s' : Storage} {r : Request} {tasks : List Task} {target least most : Int}

private theorem entryTasks_eq_nil_iff (hmost : 2 ≤ most) (e : Entry) : entryTasks target least most false e = [] ↔
    ((e.files.filter (·.size < target)).length : Int) < max 2 least := by
  change _ ↔ ((e.candidates target false).length : Int) < fewestCandidates least false
  rw [entryTasks_eq]
  by_cases hfew : ((e.candidates target false).length : Int) < fewestCandidates least false
  · rw [if_pos hfew]
    exact iff_of_true rfl hfew
  · rw [if_neg hfew, List.map_eq_nil_iff, List.filter_eq_nil_iff]
    have hmany : max 2 least ≤ (e.candidates target false).length := Int.not_lt.1 hfew
    refine iff_of_false (fun hnone => ?_) hfew
    obtain ⟨chunk, hchunk, hlong⟩ := exists_long_chunk (by omega : 2 ≤ most.toNat)
      (e.candidates target false) (by omega)
    exact hnone chunk hchunk (decide_eq_true hlong)

private theorem tasksFor_eq_ok (h : t.tasksFor s r = .ok tasks) : ∃ target least most,
    t.targetFileSize = .ok target ∧ t.minFiles = .ok least ∧ 2 ≤ most ∧
      (s.manifest.filter fun e => t.selects r.filter e.partition).flatMap (entryTasks target least most false) =
        tasks := by
  obtain ⟨predicate, hbind, h⟩ := Except.bind_eq_ok.1 h
  obtain ⟨target, least, most, selected, htarget, hleast, hmost, hscan, rfl⟩ := planTasks_eq_ok h
  obtain ⟨-, rfl⟩ := Storage.scan_eq_ok.1 hscan
  refine ⟨target, least, most, htarget, hleast, hmost, ?_⟩
  simp only [selects_eq hbind]

/-- There is nothing to do exactly if every selected bucket is settled. -/
theorem tasksFor_eq_nil_iff (htarget : t.targetFileSize = .ok target) (hleast : t.minFiles = .ok least)
    (h : t.tasksFor s r = .ok tasks) : tasks = [] ↔ t.Settled r.filter target least s := by
  obtain ⟨target', least', most, htarget', hleast', hmost, rfl⟩ := tasksFor_eq_ok h
  cases htarget.symm.trans htarget'
  cases hleast.symm.trans hleast'
  rw [List.flatMap_eq_nil_iff]
  constructor
  · intro hnone e he hselected
    exact (entryTasks_eq_nil_iff hmost e).1 (hnone e (List.mem_filter.2 ⟨he, hselected⟩))
  · intro hsettled e he
    obtain ⟨he, hselected⟩ := List.mem_filter.1 he
    exact (entryTasks_eq_nil_iff hmost e).2 (hsettled e he hselected)

theorem two_le_length_of_tasksFor (h : t.tasksFor s r = .ok tasks) : ∀ task ∈ tasks, 2 ≤ task.files.length := by
  obtain ⟨target, least, most, -, -, -, rfl⟩ := tasksFor_eq_ok h
  intro task htask
  obtain ⟨e, -, htask⟩ := List.mem_flatMap.1 htask
  exact two_le_length_of_entryTasks htask

theorem plan_unaware (hmode : t.mode = .unaware) (hr : r.strategy = .none) (s : Storage) :
    t.plan s r = (t.tasksFor s r >>= fun tasks => tasks.mapM encodeTask) := by
  unfold plan unitsUnder tasksFor
  rw [if_neg (by simp [hr]), hmode, bind_assoc]

end Table

/-! ### Carrying out tasks -/

/-- Whether a fragment puts one file in the place of those of a task. -/
def Task.CarriedOut (task : Task) (f : Fragment) : Prop := f.before = task.files ∧ ∃ merged, f.after = [merged]

variable {t : Table} {s s' : Storage} {tasks : List Task} {units : List WorkUnit} {fragments : List Fragment}

private theorem carriedOut_of_yields {task : Task} {u : WorkUnit} {part : List Fragment} {m : Manifest}
    (hu : Table.encodeTask task = .ok u) (hpart : u.Yields m part) : ∃ f, part = [f] ∧ task.CarriedOut f := by
  obtain ⟨version, payload, rfl, hdecode⟩ := Table.encodeTask_eq_ok hu
  obtain ⟨depth, task', merged, hd, rfl⟩ := hpart
  rw [hdecode depth] at hd
  cases hd
  exact ⟨_, rfl, rfl, merged, rfl⟩

/-- Tasks that are run one after another are carried out in the order in which they are run. -/
theorem exists_carriedOut {units' : List WorkUnit} {parts : List (List Fragment)} {m : Manifest}
    (henc : tasks.mapM Table.encodeTask = .ok units) (hperm : units'.Perm units)
    (hparts : List.Forall₂ (WorkUnit.Yields m) units' parts) :
    ∃ tasks', tasks'.Perm tasks ∧ List.Forall₂ Task.CarriedOut tasks' parts.flatten := by
  -- the tasks in the order of their units
  have hordered : (Relation.Comp (List.Forall₂ fun task u => Table.encodeTask task = .ok u) List.Perm) tasks units' :=
    ⟨units, Except.mapM_eq_ok.1 henc, hperm.symm⟩
  rw [List.forall₂_comp_perm_eq_perm_comp_forall₂] at hordered
  obtain ⟨tasks', hperm', henc'⟩ := hordered
  refine ⟨tasks', hperm'.symm, ?_⟩
  clear hperm hperm' henc
  induction henc' generalizing parts with
  | nil =>
    cases hparts
    exact .nil
  | cons hu _ ih =>
    cases hparts with
    | cons hpart hrest =>
      obtain ⟨f, rfl, hf⟩ := carriedOut_of_yields hu hpart
      exact .cons hf (ih hrest)

end Compaction
