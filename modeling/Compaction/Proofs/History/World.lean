import Compaction.Proofs.Job.Exchange
import Compaction.Proofs.Job.Plan

/-!
# Jobs in progress

A table with the jobs that several callers have begun on it. What a job does is cut into steps: it plans its units,
makes fragments of them in any order, which is what its workers do (`Table.worker_eq_compactUnits`), and commits these
or is abandoned. Between any two steps anything else may happen (`Event`, `World.run`). What a step may do is told by
its cases (`compact_cases`, `commit_cases`).
-/

namespace Compaction

/-- A job in progress: its units, and the fragments that it has so far. -/
structure Job where
  units : List WorkUnit := []
  fragments : List Fragment := []

/-- The job with some more fragments, which come after the first `place` of those that it has. -/
def Job.insert (j : Job) (place : Nat) (fs : List Fragment) : Job :=
  { j with fragments := j.fragments.take place ++ fs ++ j.fragments.drop place }

/-- A table's storage, the jobs that were begun on it, and the rows of all appends that gave a snapshot. -/
structure World where
  storage : Storage := {}
  jobs : List Job := []
  appended : List Row := []

/-- What a caller may do next. Each does it on a handle of the table with options of its own. -/
inductive Event where
  | append (options : List (String × String)) (rows : List Row) (bucket : Option Int) (user : String)
  /-- Begins a job. -/
  | plan (options : List (String × String)) (request : Request)
  /-- Makes fragments of a unit of a job. -/
  | compact (options : List (String × String)) (job unit : Nat) (full : Bool) (place : Nat)
  /-- Commits the fragments of a job and ends it. -/
  | commit (options : List (String × String)) (job : Nat) (user : String)
  | abandon (job : Nat)

/-- A handle of a table with options of its own. -/
def Table.handle (t : Table) (options : List (String × String)) : Table := { t with options }

namespace World

/-- The rows of the latest snapshot. -/
def rows (w : World) : List Row := w.storage.rowsIn w.storage.manifest

/-- The fragments that may still be committed. -/
def pending (w : World) : List Fragment := w.jobs.flatMap Job.fragments

def append (w : World) (t : Table) (rows : List Row) (bucket : Option Int) (user : String) : World :=
  match t.append rows bucket user w.storage with
  | (.ok (some _), s) => { w with storage := s, appended := w.appended ++ rows }
  | (_, s) => { w with storage := s }

def plan (w : World) (t : Table) (request : Request) : World :=
  match t.plan w.storage request with
  | .ok units => { w with jobs := w.jobs ++ [{ units }] }
  | .error _ => w

def compact (w : World) (t : Table) (job unit : Nat) (full : Bool) (place : Nat) : World :=
  match w.jobs[job]? with
  | none => w
  | some j =>
    match j.units[unit]? with
    | none => w
    | some u =>
      match t.compactUnit full u w.storage with
      | (.ok fs, s) => { w with storage := s, jobs := w.jobs.set job (j.insert place fs) }
      | (.error _, s) => { w with storage := s }

def commit (w : World) (t : Table) (job : Nat) (user : String) : World :=
  match w.jobs[job]? with
  | none => w
  | some j =>
    { w with storage := (t.commitFragments user j.fragments w.storage).2, jobs := w.jobs.set job {} }

def abandon (w : World) (job : Nat) : World := { w with jobs := w.jobs.set job {} }

def step (t : Table) (w : World) : Event → World
  | .append options rows bucket user => w.append (t.handle options) rows bucket user
  | .plan options request => w.plan (t.handle options) request
  | .compact options job unit full place => w.compact (t.handle options) job unit full place
  | .commit options job user => w.commit (t.handle options) job user
  | .abandon job => w.abandon job

/-- What a table that began empty has come to. -/
def run (t : Table) (events : List Event) : World := events.foldl (step t) {}

/-! ### What a step may do -/

variable {w : World}

theorem mem_pending {job : Nat} {j : Job} (h : w.jobs[job]? = some j) : ∀ f ∈ j.fragments, f ∈ w.pending :=
  fun _ hf => List.mem_flatMap.2 ⟨j, List.mem_of_getElem? h, hf⟩

theorem storage_append (w : World) (t : Table) (rows : List Row) (bucket : Option Int) (user : String) :
    (w.append t rows bucket user).storage = (t.append rows bucket user w.storage).2 := by
  unfold append
  rcases t.append rows bucket user w.storage with ⟨fault | _ | id, s⟩ <;> rfl

theorem jobs_append (w : World) (t : Table) (rows : List Row) (bucket : Option Int) (user : String) :
    (w.append t rows bucket user).jobs = w.jobs := by
  unfold append
  rcases t.append rows bucket user w.storage with ⟨fault | _ | id, s⟩ <;> rfl

theorem storage_plan (w : World) (t : Table) (request : Request) : (w.plan t request).storage = w.storage := by
  unfold plan
  cases t.plan w.storage request <;> rfl

/-- A job that has just begun has no fragments. -/
theorem pending_plan (w : World) (t : Table) (request : Request) : (w.plan t request).pending = w.pending := by
  unfold plan
  cases t.plan w.storage request with
  | error fault => rfl
  | ok units => simp [pending]

/-- Compacting a unit that there is fails, after files were written maybe, or its job has some more fragments. -/
theorem compact_cases (w : World) (t : Table) (job unit : Nat) (full : Bool) (place : Nat) :
    w.compact t job unit full place = w ∨ ∃ j u, w.jobs[job]? = some j ∧ j.units[unit]? = some u ∧
      ((∃ fault s, t.compactUnit full u w.storage = (.error fault, s) ∧
        w.compact t job unit full place = { w with storage := s }) ∨
      ∃ fs s, t.compactUnit full u w.storage = (.ok fs, s) ∧
        w.compact t job unit full place = { w with storage := s, jobs := w.jobs.set job (j.insert place fs) }) := by
  unfold compact
  cases hj : w.jobs[job]? with
  | none => exact .inl rfl
  | some j =>
    cases hu : j.units[unit]? with
    | none =>
      simp only [hu]
      exact .inl trivial
    | some u =>
      refine .inr ⟨j, u, rfl, hu, ?_⟩
      rcases e : t.compactUnit full u w.storage with ⟨fault | fs, s⟩
      · simp only [hu, e]
        exact .inl ⟨fault, s, rfl, rfl⟩
      · simp only [hu, e]
        exact .inr ⟨fs, s, rfl, rfl⟩

/-- A commit ends a job if there is one, whatever comes of its fragments. -/
theorem commit_cases (w : World) (t : Table) (job : Nat) (user : String) :
    w.commit t job user = w ∨ ∃ j, w.jobs[job]? = some j ∧ w.commit t job user =
      { w.abandon job with storage := (t.commitFragments user j.fragments w.storage).2 } := by
  unfold commit
  cases hj : w.jobs[job]? with
  | none => exact .inl rfl
  | some j => exact .inr ⟨j, rfl, rfl⟩

end World

end Compaction
