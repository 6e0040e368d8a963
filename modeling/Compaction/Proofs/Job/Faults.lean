import Compaction.Job.Run
import Compaction.Proofs.Filter.Match
import Compaction.Proofs.Job.Plan
import Compaction.Proofs.Table.Options
import Compaction.Proofs.Table.Selection

/-!
# Faults of a job

An operation ensures something of its results if it fails with faults of this library only (`Effect.Ensures`).
Executors do, whatever their workers fail with (`ensures_run`), and so do commits (`ensures_commitFragments`). What is
left are the faults of planning: all are of this library but for a numeric option of the table that is no whole number
(`plan_eq_error`).
-/

namespace Compaction

namespace Effect

variable {σ α β : Type} {P : α → Prop} {Q : β → Prop} {action : Effect σ α}

/-- Whether an operation, however it is begun, ends with such a result or with a fault of this library. -/
def Ensures (P : α → Prop) (action : Effect σ α) : Prop :=
  ∀ s, (∀ x, (action s).1 = .ok x → P x) ∧ ∀ f, (action s).1 = .error f → f.kind.isLibrary

private theorem ensures_pure {x : α} (h : P x) : Ensures P (pure x : Effect σ α) := fun _ =>
  ⟨fun _ e => Except.ok.inj e ▸ h, nofun⟩

private theorem ensures_throw {f : Fault} (h : f.kind.isLibrary) : Ensures P (throw f : Effect σ α) := fun _ =>
  ⟨nofun, fun _ e => Except.error.inj e ▸ h⟩

theorem Ensures.bind (h : action.Ensures P) {next : α → Effect σ β} (hnext : ∀ x, P x → (next x).Ensures Q) :
    Ensures Q (action >>= next) := by
  intro s
  obtain ⟨hok, herror⟩ := h s
  rcases e : action s with ⟨f | x, s'⟩
  · rw [bind_of_error e]
    refine ⟨nofun, fun g hg => ?_⟩
    cases hg
    exact herror f (by rw [e])
  · rw [bind_of_ok e]
    exact hnext x (hok x (by rw [e])) s'

private theorem ensures_mapFault {wrap : Fault → Fault} (h : ∀ f, (wrap f).kind.isLibrary) (action : Effect σ α) :
    Ensures (fun _ => True) (action.mapFault wrap) := by
  intro s
  rw [mapFault_apply]
  refine ⟨fun _ _ => trivial, fun f hf => ?_⟩
  cases e : (action s).1 with
  | error g =>
    rw [e] at hf
    exact Except.error.inj hf ▸ h g
  | ok x =>
    rw [e] at hf
    cases hf

end Effect

open Effect

variable {σ α β : Type} {f : Fault}

/-! ### Executors -/

namespace Executor

private theorem isLibrary_workerFault (i : Nat) (f : Fault) : (workerFault i f).kind.isLibrary := by
  unfold workerFault
  split
  · next h => exact h
  · rfl

private theorem ensures_runThreads (worker : Worker σ α β) (cuts : List (List α)) (i : Nat) :
    Ensures (fun _ => True) (runThreads worker i cuts) := by
  induction cuts generalizing i with
  | nil => exact ensures_pure trivial
  | cons cut rest ih =>
    refine (ensures_mapFault (isLibrary_workerFault i) _).bind fun results _ => ?_
    exact (ih (i + 1)).bind fun others _ => ensures_pure trivial

/-- Whether a slice ended with results or a fault of this library. -/
def IsReported (outcome : Except Fault (List β)) : Prop := ∀ f, outcome = .error f → f.kind.isLibrary

private theorem ensures_outcome (result : Effect σ (List β)) : Ensures IsReported (outcome result) := by
  intro s
  unfold outcome
  rcases result s with ⟨f | results, s'⟩
  · by_cases hf : f.kind.isLibrary
    · simp only [hf, if_true]
      refine ⟨fun o e => ?_, nofun⟩
      cases e
      rintro g ⟨⟩
      exact hf
    · simp only [hf]
      refine ⟨nofun, fun g e => ?_⟩
      cases e
      rfl
  · refine ⟨fun o e => ?_, nofun⟩
    cases e
    nofun

private theorem ensures_collect (worker : Worker σ α β) (cuts : List (List α)) :
    Ensures (fun outcomes => ∀ o ∈ outcomes, IsReported o) (collect worker cuts) := by
  induction cuts with
  | nil => exact ensures_pure (by simp)
  | cons cut rest ih =>
    refine (ensures_outcome (worker cut)).bind fun first hfirst => ?_
    exact ih.bind fun others hothers => ensures_pure (List.forall_mem_cons.2 ⟨hfirst, hothers⟩)

private theorem isLibrary_of_gather {outcomes : List (Except Fault (List β))} (h : ∀ o ∈ outcomes, IsReported o)
    (hf : gather outcomes = .error f) : f.kind.isLibrary := by
  induction outcomes with
  | nil => cases hf
  | cons first rest ih =>
    rw [List.forall_mem_cons] at h
    rcases Except.bind_eq_error.1 hf with hf | ⟨results, -, hf⟩
    · exact h.1 f hf
    · exact ih h.2 (Except.bind_pure_eq_error.1 hf)

private theorem ensures_runEngine (e : Engine) (workers : Option Workers) (units : List α) (worker : Worker σ α β) :
    Ensures (fun _ => True) (runEngine e workers units worker) := by
  unfold runEngine
  split
  · exact ensures_throw rfl
  · split
    case' h_1 => refine (ensures_throw (P := fun _ => True) rfl).bind fun _ _ => ?_
    all_goals
      refine (ensures_collect worker _).bind fun outcomes houtcomes => ?_
      split
      · exact ensures_pure trivial
      · next hf => exact ensures_throw (isLibrary_of_gather houtcomes hf)

/-- Whatever goes wrong with whole numbers of workers, what is reported is a fault of this library. -/
theorem ensures_run {executor : Executor} (hwhole : ∀ x, executor ≠ .threads (.real x)) (units : List α)
    (worker : Worker σ α β) (sendable : Except Fault Unit) :
    Ensures (fun _ => True) (executor.run units worker sendable) := by
  cases executor with
  | threads workers =>
    cases workers with
    | whole n => exact ensures_runThreads worker _ 0
    | real x => exact absurd rfl (hwhole x)
  | engine e workers =>
    simp only [run]
    split
    · exact ensures_pure trivial
    · cases sendable with
      | error f => exact ensures_throw rfl
      | ok _ => exact ensures_runEngine e workers units worker

end Executor

namespace Table

variable {t : Table} {s : Storage} {r : Request}

/-! ### Commits -/

theorem ensures_commitFragments (t : Table) (user : String) (fragments : List Fragment) :
    Ensures (fun _ => True) (t.commitFragments user fragments) := by
  unfold commitFragments
  dsimp only
  split
  · exact ensures_pure trivial
  · refine (ensures_mapFault (fun f => ?_) _).bind fun id _ => ensures_pure trivial
    split
    · next h =>
      unfold isCommitFault at h
      rcases Bool.or_eq_true_iff.1 h with h | h <;> rw [of_decide_eq_true h] <;> rfl
    · rfl

theorem ensures_runUnits (t : Table) {executor : Executor} (hwhole : ∀ x, executor ≠ .threads (.real x)) (user : String)
    (units : List WorkUnit) (report : Report) :
    Ensures (fun _ => True) (t.runUnits executor user units report) := by
  refine (Executor.ensures_run hwhole units _ _).bind fun fragments _ => ?_
  exact (ensures_commitFragments t user fragments).bind fun snapshot _ => ensures_pure trivial

/-! ### Plans -/

/-- The options of a table that planning its tasks reads as whole numbers. -/
def taskOptions : List String := ["target-file-size", "compaction.min.file-num", "compaction.max.file-num"]

theorem kind_of_numericOption {name : String} (h : t.numericOption name = .error f) : f.kind = .badValue := by
  unfold numericOption Value.wholeOfText at h
  cases e : Number.readWhole 10 (t.option name).toList with
  | error reason =>
    rw [e] at h
    cases h
    rfl
  | ok n =>
    rw [e] at h
    cases h

private theorem isLibrary_of_scan (hprints : ∀ e ∈ s.manifest, e.partition.prints) {predicate : Option Predicate}
    (h : s.scan predicate = .error f) : f.kind.isLibrary := by
  cases predicate with
  | none => cases h
  | some p =>
    obtain ⟨e, he, htest⟩ := Storage.exists_of_selectEntries_eq_error h
    have hkind := Filter.kind_of_selects (fun c _ => Row.prints_get (p.prints_row (hprints e he)) c) htest
    rw [hkind]
    rfl

private theorem isLibrary_of_bindFilter {filter : Option Filter} (h : t.bindFilter filter = .error f) :
    f.kind.isLibrary := by
  cases filter with
  | none => cases h
  | some filter =>
    replace h := Except.bind_pure_eq_error.1 h
    unfold Filter.bind at h
    split at h
    · cases h
    · cases h
      rfl

private theorem isLibrary_of_encodeTask {task : Task} (hprints : task.partition.prints)
    (h : encodeTask task = .error f) : f.kind.isLibrary := by
  replace h := Except.bind_pure_eq_error.1 h
  unfold Task.encode at h
  split at h
  · cases h
    rfl
  · split at h
    · cases h
    · next cause _ =>
      rw [Fault.raised_of_prints (f := .encodingFailed task.partition cause) hprints] at h
      cases h
      rfl

/-- The options are read before anything else. -/
private theorem planTasks_eq_error {full : Bool} {predicate : Option Predicate}
    (h : t.planTasks s full predicate = .error f) :
    (∃ name ∈ taskOptions, t.numericOption name = .error f) ∨ s.scan predicate = .error f := by
  rcases Except.bind_eq_error.1 h with h | ⟨target, -, h⟩
  · exact .inl ⟨_, by simp [taskOptions], h⟩
  · rcases Except.bind_eq_error.1 h with h | ⟨least, -, h⟩
    · exact .inl ⟨_, by simp [taskOptions], h⟩
    · rcases Except.bind_eq_error.1 h with h | ⟨most, -, h⟩
      · exact .inl ⟨_, by simp [taskOptions], h⟩
      · exact .inr (Except.bind_pure_eq_error.1 h)

/-- Planning fails with a fault of this library, or with that of a numeric option. -/
theorem plan_eq_error (hprints : ∀ e ∈ s.manifest, e.partition.prints) (h : t.plan s r = .error f) :
    f.kind.isLibrary ∨ t.mode = .unaware ∧ (∃ predicate, t.bindFilter r.filter = .ok predicate) ∧
      ∃ name ∈ taskOptions, t.numericOption name = .error f := by
  unfold plan at h
  split at h
  · cases h
  · rcases Except.bind_eq_error.1 h with h | ⟨predicate, hfilter, h⟩
    · exact .inl (isLibrary_of_bindFilter h)
    · have hbuckets : planBuckets s predicate = .error f → f.kind.isLibrary := by
        intro h
        exact isLibrary_of_scan hprints (Except.bind_pure_eq_error.1 h)
      unfold unitsUnder at h
      cases hmode : t.mode with
      | fixed => exact .inl (hbuckets (by simpa [hmode] using h))
      | dynamic => exact .inl (hbuckets (by simpa [hmode] using h))
      | crossPartition =>
        simp only [hmode] at h
        cases h
        exact .inl rfl
      | unaware =>
        simp only [hmode] at h
        rcases Except.bind_eq_error.1 h with h | ⟨tasks, htasks, h⟩
        · rcases planTasks_eq_error h with hoption | h
          · exact .inr ⟨rfl, ⟨predicate, hfilter⟩, hoption⟩
          · exact .inl (isLibrary_of_scan hprints h)
        · obtain ⟨before, task, after, rfl, -, h⟩ := Except.mapM_eq_error.1 h
          obtain ⟨e, he, hp, -⟩ := (supplies_of_planTasks htasks).bucket task (by simp)
          exact .inl (isLibrary_of_encodeTask (hp ▸ hprints e he) h)

/-- No task is planned with an option that is no whole number. -/
private theorem exists_planTasks_eq_error {name : String} (hname : name ∈ taskOptions)
    (h : t.numericOption name = .error f) (full : Bool) (predicate : Option Predicate) :
    ∃ g, t.planTasks s full predicate = .error g ∧ ∃ name ∈ taskOptions, t.numericOption name = .error g := by
  unfold planTasks
  cases htarget : t.targetFileSize with
  | error g => exact ⟨g, rfl, _, by simp [taskOptions], htarget⟩
  | ok target =>
    cases hleast : t.minFiles with
    | error g => exact ⟨g, rfl, _, by simp [taskOptions], hleast⟩
    | ok least =>
      cases hmost : t.maxFiles with
      | error g => exact ⟨g, rfl, _, by simp [taskOptions], hmost⟩
      | ok most =>
        have hread : ∀ name ∈ taskOptions, ∃ n, t.numericOption name = .ok n := by
          simp only [taskOptions, List.forall_mem_cons]
          exact ⟨⟨target, htarget⟩, ⟨least, hleast⟩, ⟨most, hmost⟩, by simp⟩
        obtain ⟨n, hn⟩ := hread name hname
        rw [hn] at h
        cases h

theorem exists_plan_eq_error (hmode : t.mode = .unaware) (hr : r.strategy = .none) {predicate : Option Predicate}
    (hfilter : t.bindFilter r.filter = .ok predicate) {name : String} (hname : name ∈ taskOptions)
    (h : t.numericOption name = .error f) :
    ∃ g, t.plan s r = .error g ∧ ∃ name ∈ taskOptions, t.numericOption name = .error g := by
  obtain ⟨g, hg, hoption⟩ := exists_planTasks_eq_error (s := s) hname h false predicate
  refine ⟨g, ?_, hoption⟩
  have hnot : ¬ r.strategy ≠ .none := not_not.2 hr
  rw [plan, if_neg hnot, hfilter]
  show t.unitsUnder s predicate = _
  simp only [unitsUnder, hmode]
  rw [hg]
  rfl

end Table

end Compaction
