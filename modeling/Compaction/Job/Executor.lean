import Compaction.Effect
import Compaction.Job.Slices
import Compaction.Value.Compare

/-!
# Executors

Running a worker on the slices of a job, one slice after another. A fault ends the job: one of this library's own as it
is, any other as a fault of the worker or of the engine. The local executor stops at the first slice that fails; the
engine goes on after a fault of the library and reports the first one at the end.
-/

namespace Compaction

variable {σ α β : Type}

/-- What is run on each slice. -/
abbrev Worker (σ α β : Type) := List α → Effect σ (List β)

/-- How many workers are asked for. A number that is not whole can only serve as a bound. -/
inductive Workers where
  | whole (n : Int)
  | real (x : Float64)

namespace Workers

def relationTo (x : Float64) (n : Int) : Relation := (Value.float x 0).relation (.int n)

def atLeastOne : Workers → Workers
  | whole n => whole (max 1 n)
  | real x => if relationTo x 1 = .after then real x else whole 1

/-- The number of slices of a local job of `n` units. -/
def localCount? (w : Workers) (n : Nat) : Option Int :=
  match w with
  | whole k => some (min k n)
  | real x => if relationTo x n = .after then some n else none

/-- The number of slices of an engine's job of `n` units. -/
def engineCount? (w : Workers) (n : Nat) : Option Int :=
  match w with
  | whole k => some (min n k)
  | real x => if relationTo x n = .before then none else some n

end Workers

/-- An engine that runs slices as the partitions of a dataset. -/
structure Engine where
  defaultWorkers : Int
  /-- What the engine fails with before it runs anything. -/
  failure : Option String := none

inductive Executor where
  | threads (workers : Workers)
  | engine (engine : Engine) (workers : Option Workers)

namespace Executor

/-- The fault of a worker on the slice of the given number. -/
def workerFault (slice : Nat) (f : Fault) : Fault := if f.kind.isLibrary then f else .workerFailed slice f

/-- Runs the slices up to the first that fails. -/
def runThreads (worker : Worker σ α β) : Nat → List (List α) → Effect σ (List β)
  | _, [] => return []
  | i, slice :: rest => do
    let results ← (worker slice).mapFault (workerFault i)
    return results ++ (← runThreads worker (i + 1) rest)

/-- The outcome of a slice on an engine: a fault of the library is a result. -/
def outcome (result : Effect σ (List β)) : Effect σ (Except Fault (List β)) := fun state =>
  match result state with
  | (.ok results, state) => (.ok (.ok results), state)
  | (.error f, state) => (if f.kind.isLibrary then .ok (.error f) else .error (.stageFailed f), state)

def collect (worker : Worker σ α β) : List (List α) → Effect σ (List (Except Fault (List β)))
  | [] => return []
  | slice :: rest => do
    let first ← outcome (worker slice)
    return first :: (← collect worker rest)

/-- The first fault, or all the results. -/
def gather : List (Except Fault (List β)) → Except Fault (List β)
  | [] => .ok []
  | first :: rest => do return (← first) ++ (← gather rest)

/-- The slices of a job on an engine, if their number is whole. No workers at all stand for the default. -/
def engineSlices? (e : Engine) (workers : Option Workers) (units : List α) : Option (List (List α)) :=
  let w : Workers := match workers with
    | none | some (.whole 0) => .whole e.defaultWorkers
    | some w => w
  (w.engineCount? units.length).map fun n => stretches units n.toNat

def runEngine (e : Engine) (workers : Option Workers) (units : List α) (worker : Worker σ α β) :
    Effect σ (List β) := do
  match engineSlices? e workers units with
  | none => throw (.stageFailed (.bare .badType))
  | some slices =>
    if let some text := e.failure then throw (.stageFailed (.reported .badState text))
    match gather (← collect worker slices) with
    | .ok results => return results
    | .error f => throw f

/-- Runs a worker on all units. An engine needs a worker that can be sent to it. -/
def run (executor : Executor) (units : List α) (worker : Worker σ α β) (sendable : Except Fault Unit) :
    Effect σ (List β) :=
  match executor with
  | threads w => do
    match w.localCount? units.length with
    | none => throw (.bare .badType)
    | some n => runThreads worker 0 (slices units n)
  | engine e w => do
    if units.isEmpty then return []
    match sendable with
    | .error f => throw (.unshippable f)
    | .ok _ => runEngine e w units worker

end Executor

end Compaction
