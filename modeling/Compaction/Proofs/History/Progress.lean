import Compaction.Proofs.History.Rewriting
import Compaction.Proofs.Job.Tasks
import Mathlib

/-!
# Repeated compaction

Compacting a table without assigned buckets over and over makes progress and stops (`passes_progress`). The measure is
the count of live files: a pass that completes lowers it by what its tasks save (`compact_tasks`), and a pass that is
skipped changes nothing, so all later ones are skipped as well.
-/

namespace Compaction

/-- How many files the latest snapshot lists. -/
def Storage.fileCount (s : Storage) : Nat := (s.latest?.map Snapshot.fileCount).getD 0

/-- How many files there are fewer once a task is carried out. -/
def Task.saved (task : Task) : Nat := task.files.length - 1

/-- A compaction that succeeded. -/
structure Pass where
  before : Storage
  report : Report
  after : Storage

/-- Whether these are compactions of a table for one request, each from what the one before has left. -/
inductive Table.Passes (t : Table) (r : Request) : Storage → List Pass → Prop
  | nil (s : Storage) : Passes t r s []
  | cons {s s' : Storage} {report : Report} {passes : List Pass} (executor : Executor) (user : String)
      (h : t.compact executor user r s = (.ok report, s')) (rest : Passes t r s' passes) :
      Passes t r s (⟨s, report, s'⟩ :: passes)

/-- Whether a pass lowers the count of files by what its tasks save, or does nothing because there is nothing to do. -/
structure Pass.Progresses (t : Table) (r : Request) (target least : Int) (pass : Pass) : Prop where
  outcome :
    (pass.report.status = .completed ∧ pass.after.fileCount < pass.before.fileCount ∧ ∃ tasks,
      t.tasksFor pass.before r = .ok tasks ∧
        pass.after.fileCount + (tasks.map Task.saved).sum = pass.before.fileCount) ∨
    (pass.report.status = .skipped ∧ pass.after = pass.before)
  skipped_iff : pass.report.status = .skipped ↔ t.Settled r.filter target least pass.before

variable {t : Table} {s s' : Storage} {r : Request} {tasks : List Task} {fragments : List Fragment}
variable {target least : Int} {passes : List Pass}

theorem Storage.fileCount_eq (s : Storage) : s.fileCount = s.manifest.files.length := by
  unfold fileCount Storage.manifest
  cases s.latest? <;> rfl

/-! ### One pass -/

private theorem changesOf_carriedOut (h : List.Forall₂ Task.CarriedOut tasks fragments) :
    changesOf fragments = fragments := by
  refine changesOf_eq_self ?_
  induction h with
  | nil => simp
  | cons hf _ ih =>
    obtain ⟨-, merged, hafter⟩ := hf
    rw [List.forall_mem_cons, hafter]
    exact ⟨List.cons_ne_nil _ _, ih⟩

private theorem length_before_carriedOut (h : List.Forall₂ Task.CarriedOut tasks fragments)
    (hlong : ∀ task ∈ tasks, 2 ≤ task.files.length) :
    (fragments.flatMap Fragment.before).length =
      (fragments.flatMap Fragment.after).length + (tasks.map Task.saved).sum := by
  induction h with
  | nil => rfl
  | cons hf _ ih =>
    rw [List.forall_mem_cons] at hlong
    obtain ⟨hbefore, merged, hafter⟩ := hf
    have hrest := ih hlong.2
    have hfirst := hlong.1
    simp only [List.flatMap_cons, List.length_append, List.map_cons, List.sum_cons, hbefore, hafter,
      List.length_singleton, Task.saved] at hrest ⊢
    omega

private theorem saved_pos (hlong : ∀ task ∈ tasks, 2 ≤ task.files.length) (h : tasks ≠ []) :
    0 < (tasks.map Task.saved).sum := by
  cases tasks with
  | nil => exact absurd rfl h
  | cons task rest =>
    have hfirst := hlong task (by simp)
    rw [List.map_cons, List.sum_cons, Task.saved]
    omega

/-- Committing what was made of tasks lowers the count of files by what they save. -/
private theorem fileCount_commit (hs : s.Sound t) (hc : s.Completes s' fragments)
    (h : List.Forall₂ Task.CarriedOut tasks fragments) (hlong : ∀ task ∈ tasks, 2 ≤ task.files.length)
    (hadmits : s'.manifest.Admits fragments) (user kind : String) :
    (s'.withSnapshot user kind (s'.manifest.committed fragments)).fileCount + (tasks.map Task.saved).sum =
      s.fileCount := by
  have hfiles := (Storage.files_commit (hs.writes hc.writes) hc.merges hadmits).length_eq
  have hbefore := length_before_carriedOut h hlong
  rw [Storage.fileCount_eq, Storage.fileCount_eq, Storage.manifest_withSnapshot, ← hc.writes.manifest]
  rw [List.length_append, List.length_append] at hfiles
  omega

/-- A compaction that succeeds carries out the tasks that there are, or is skipped if there are none. -/
theorem Table.compact_tasks {executor : Executor} {user : String} {report : Report} (hs : s.Sound t)
    (hmode : t.mode = .unaware) (hr : r.strategy = .none) (h : t.compact executor user r s = (.ok report, s')) :
    s'.Sound t ∧ ∃ tasks, t.tasksFor s r = .ok tasks ∧
      ((tasks = [] ∧ report.status = .skipped ∧ s' = s) ∨
        (tasks ≠ [] ∧ report.status = .completed ∧ s'.fileCount + (tasks.map Task.saved).sum = s.fileCount)) := by
  obtain ⟨units, hplan, hjob⟩ := compact_eq_ok hr h
  have hunit := isPlain_of_plan hplan hs.manifest.nodup
  rw [plan_unaware hmode hr] at hplan
  obtain ⟨tasks, htasks, hunits⟩ := Except.bind_eq_ok.1 hplan
  have hlength := Except.length_of_mapM_eq_ok hunits
  rcases hjob with ⟨rfl, rfl, rfl⟩ | ⟨hsome, hjob⟩
  · have hnone : tasks = [] := List.length_eq_zero_iff.1 hlength.symm
    exact ⟨hs, tasks, htasks, Or.inl ⟨hnone, rfl, rfl⟩⟩
  · have hsome' : tasks ≠ [] := by
      rintro rfl
      exact hsome (List.length_eq_zero_iff.1 hlength)
    have hfits : ∀ u ∈ units, u.Fits t.forCompaction.mode := fun u hu => (hunit u hu).2
    have hs₀ : s.Sound t.forCompaction := hs.handle _
    obtain ⟨units', fragments, s₁, hperm, hrun, hend⟩ := runUnits_eq_ok hs.willing hfits hjob
    obtain ⟨hc, parts, rfl, hparts⟩ := compactUnits_eq_ok hs₀ t.not_isWriteOnly_forCompaction
      (fun u hu => (hunit u (hperm.subset hu)).1) hrun
    obtain ⟨tasks', hperm', hcarried⟩ := exists_carriedOut hunits hperm hparts
    have hlong : ∀ task ∈ tasks', 2 ≤ task.files.length := fun task htask =>
      two_le_length_of_tasksFor htasks task (hperm'.subset htask)
    rw [changesOf_carriedOut hcarried] at hend
    rcases hend with ⟨hnil, -⟩ | ⟨-, ⟨-, hadmits⟩, hstatus, rfl⟩
    · rw [hnil, List.forall₂_nil_right_iff] at hcarried
      exact absurd (hcarried ▸ hperm').nil_eq.symm hsome'
    · have hn := hc.writes.nodup_append hs.manifest.stored hs.manifest.nodup
      rw [← hc.writes.manifest] at hn
      have hsound := Storage.sound_commit (hs.writes hc.writes) hc.merges hadmits hn user "COMPACT"
      have hsaved := fileCount_commit hs hc hcarried hlong hadmits user "COMPACT"
      rw [(hperm'.map Task.saved).sum_nat] at hsaved
      exact ⟨hsound, tasks, htasks, Or.inr ⟨hsome', hstatus, hsaved⟩⟩

/-- What one pass does, and that it leaves a table on which the next one can be run. -/
private theorem progresses_of_compact {executor : Executor} {user : String} {report : Report} (hs : s.Sound t)
    (hmode : t.mode = .unaware) (hr : r.strategy = .none) (htarget : t.targetFileSize = .ok target)
    (hleast : t.minFiles = .ok least) (h : t.compact executor user r s = (.ok report, s')) :
    s'.Sound t ∧ Pass.Progresses t r target least ⟨s, report, s'⟩ := by
  obtain ⟨hs', tasks, htasks, ⟨hnil, hstatus, rfl⟩ | ⟨hsome, hstatus, hcount⟩⟩ := Table.compact_tasks hs hmode hr h
  · refine ⟨hs', Or.inr ⟨hstatus, rfl⟩, ?_⟩
    exact iff_of_true hstatus ((Table.tasksFor_eq_nil_iff htarget hleast htasks).1 hnil)
  · have hsaved := saved_pos (Table.two_le_length_of_tasksFor htasks) hsome
    refine ⟨hs', Or.inl ⟨hstatus, ?_, tasks, htasks, hcount⟩, ?_⟩
    · show s'.fileCount < s.fileCount
      omega
    · refine iff_of_false ?_ fun hsettled => hsome ((Table.tasksFor_eq_nil_iff htarget hleast htasks).2 hsettled)
      show report.status ≠ .skipped
      rw [hstatus]
      decide

/-! ### Passes one after another -/

/-- A settled table stays so: nothing is done to it any more. -/
private theorem skipped_of_settled (hs : s.Sound t) (hmode : t.mode = .unaware) (hr : r.strategy = .none)
    (htarget : t.targetFileSize = .ok target) (hleast : t.minFiles = .ok least) (h : t.Passes r s passes)
    (hsettled : t.Settled r.filter target least s) : ∀ pass ∈ passes, pass.report.status = .skipped := by
  induction h with
  | nil s => simp
  | cons executor user hpass _ ih =>
    obtain ⟨hs', hprogress⟩ := progresses_of_compact hs hmode hr htarget hleast hpass
    have hskipped := hprogress.skipped_iff.2 hsettled
    rw [List.forall_mem_cons]
    refine ⟨hskipped, ?_⟩
    rcases hprogress.outcome with ⟨hcompleted, -⟩ | ⟨-, hsame⟩
    · rw [hskipped] at hcompleted
      cases hcompleted
    · cases hsame
      exact ih hs hsettled

/-- Every pass either lowers the count of files or finds nothing to do. So no more passes complete than there are files
at the start, and once a pass is skipped all later ones are. -/
theorem World.passes_progress {w : World} (hw : w.Reached t) (hmode : t.mode = .unaware) (hr : r.strategy = .none)
    (htarget : t.targetFileSize = .ok target) (hleast : t.minFiles = .ok least) (h : t.Passes r w.storage passes) :
    (∀ pass ∈ passes, pass.Progresses t r target least) ∧
    (passes.filter (·.report.status = .completed)).length ≤ w.storage.fileCount ∧
    passes.Pairwise fun earlier later => earlier.report.status = .skipped → later.report.status = .skipped := by
  have hs := hw.sound.storage
  clear hw
  generalize w.storage = s at hs h
  induction h with
  | nil s => simp
  | @cons s s' report passes executor user hpass hrest ih =>
    obtain ⟨hs', hprogress⟩ := progresses_of_compact hs hmode hr htarget hleast hpass
    obtain ⟨hall, hbound, hpairwise⟩ := ih hs'
    refine ⟨List.forall_mem_cons.2 ⟨hprogress, hall⟩, ?_,
      List.pairwise_cons.2 ⟨fun later hlater hskipped => ?_, hpairwise⟩⟩
    · rcases hprogress.outcome with ⟨hcompleted, hfewer, -⟩ | ⟨hskipped, hsame⟩
      · rw [List.filter_cons_of_pos (by simpa using hcompleted), List.length_cons]
        exact Nat.le_trans (Nat.succ_le_succ hbound) hfewer
      · have hsame' : s' = s := hsame
        rw [List.filter_cons_of_neg (by simpa using hskipped ▸ (by decide : Status.skipped ≠ .completed)), ← hsame']
        exact hbound
    · rcases hprogress.outcome with ⟨hcompleted, -⟩ | ⟨-, hsame⟩
      · have hskipped' : report.status = .skipped := hskipped
        rw [show report.status = .completed from hcompleted] at hskipped'
        cases hskipped'
      · have hsame' : s' = s := hsame
        subst hsame'
        exact skipped_of_settled hs hmode hr htarget hleast hrest (hprogress.skipped_iff.1 hskipped) later hlater

/-- Two files are merged by the first pass, and the second one has nothing to do. -/
theorem World.passes_progress_of_two_files :
    let t : Table := ⟨"t", ["dt"], .unaware, 1, [], [("target-file-size", "1000"), ("compaction.min.file-num", "-3"),
      ("compaction.max.file-num", "1")]⟩
    let append (n : Int) : Event := .append [] [[("dt", .int 1), ("v", .int n)]] none "u"
    let s := (run t [append 1, append 2]).storage
    ∃ first second, t.Passes {} s [first, second] ∧ first.Progresses t {} 1000 (-3) ∧
      second.Progresses t {} 1000 (-3) ∧ first.report.status = .completed ∧ second.report.status = .skipped := by
  intro t append s
  have hok : (do
      let first ← t.compact (.threads (.whole 2)) "u" {}
      let second ← t.compact (.threads (.whole 1)) "u" {}
      return (first.status, second.status) : Action (Status × Status)) s |>.1.toOption =
        some (.completed, .skipped) := by
    decide +kernel
  rcases e : t.compact (.threads (.whole 2)) "u" {} s with ⟨fault | first, s₁⟩
  · rw [Effect.bind_of_error e] at hok
    cases hok
  · rw [Effect.bind_of_ok e] at hok
    rcases e' : t.compact (.threads (.whole 1)) "u" {} s₁ with ⟨fault | second, s₂⟩
    · rw [Effect.bind_of_error e'] at hok
      cases hok
    · rw [Effect.bind_of_ok e'] at hok
      obtain ⟨hfirst, hsecond⟩ := Prod.mk.inj (Option.some.inj hok)
      have htarget : t.targetFileSize = .ok 1000 := by cbv
      have hleast : t.minFiles = .ok (-3) := by cbv
      have hpasses : t.Passes {} s [⟨s, first, s₁⟩, ⟨s₁, second, s₂⟩] := .cons _ _ e (.cons _ _ e' (.nil s₂))
      have hprogress := passes_progress (reached_run t [append 1, append 2]) rfl rfl htarget hleast hpasses
      exact ⟨_, _, hpasses, hprogress.1 _ (by simp), hprogress.1 _ (by simp), hfirst, hsecond⟩

end Compaction
