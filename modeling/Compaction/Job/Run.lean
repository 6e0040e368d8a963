import Compaction.Job.Report
import Compaction.Job.Worker
import Compaction.Table.Reorder

/-!
# Running a compaction

A request without a sorting strategy is planned, its units are run, and what they give is committed as one snapshot. A
request with one reorders the rows. A fault leaves the snapshots as they were.
-/

namespace Compaction.Table

/-- Compacts even a table whose writers leave compaction to others. -/
def forCompaction (t : Table) : Table := t.withOptions [("write-only", "false")]

def countFiles (files : Fragment → List DataFile) (fragments : List Fragment) : Nat :=
  Number.total (fragments.map fun f => (files f).length)

/-- Runs the units and commits what they give, under the identity `user`. -/
def runUnits (t : Table) (executor : Executor) (user : String) (units : List WorkUnit) (report : Report) :
    Action Report := do
  let fragments ← executor.run units (t.worker t.mode) t.sendable
  let snapshot ← t.commitFragments user fragments
  let changes := fragments.filter (!·.isEmpty)
  return { report with
    status := if snapshot.isSome then .completed else .skipped
    units := units.length
    fragments := if snapshot.isSome then changes.length else 0
    before := countFiles Fragment.before changes
    after := countFiles Fragment.after changes
    snapshot := snapshot.map Int.ofNat
    user := some user }

/-- Compacts a table as requested. The identity is used if there are units to run. -/
def compact (t : Table) (executor : Executor) (user : String) (r : Request) : Action Report := do
  let t := t.forCompaction
  let report : Report := { table := t.name, strategy := r.strategy, mode := some t.mode, partitions := r.partitions }
  if r.strategy = .none then
    let units ← Effect.ofRead fun s => t.plan s r
    if units.isEmpty then return { report with status := .skipped }
    t.runUnits executor user units report
  else
    let snapshot ← t.reorder r.strategy r.columns r.filter
    return { report with status := .completed, snapshot := snapshot.map Int.ofNat }

/-- Whether compacting the table as requested would use an identity. -/
def usesIdentity (t : Table) (s : Storage) (r : Request) : Bool :=
  match t.forCompaction.plan s r with
  | .ok units => !units.isEmpty
  | .error _ => false

end Compaction.Table
