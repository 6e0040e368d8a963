import Compaction.Job.Executor
import Compaction.Job.Units
import Compaction.Table.Merge

/-!
# Workers

What is done with the units of a slice: the buckets of a table of assigned buckets are compacted, the tasks of a table
without them are decoded and carried out. A unit of the other kind is a fault. Buckets are compacted with spill
directories at hand. The fragments of a slice are given away at its end.
-/

namespace Compaction.Table

def compactBuckets (t : Table) (mode : BucketMode) : List WorkUnit → BucketWriter → Action (List Fragment)
  | [], w => return w.prepare.1
  | .bucket p b :: rest, w => do compactBuckets t mode rest (← w.compact t p b true)
  | unit :: _, _ => throw (Fault.misplacedUnit unit mode).raised

def carryOutTasks (mode : BucketMode) : List WorkUnit → Action (List Fragment)
  | [] => return []
  | .task version payload :: rest => do
    let task ← Effect.ofRead fun s => Task.decode s.host.maxDepth version payload
    let fragment ← TaskWriter.compact {} task
    return fragment :: (← carryOutTasks mode rest)
  | unit :: _ => throw (Fault.misplacedUnit unit mode).raised

/-- The worker of a table for units of the given mode. -/
def worker (t : Table) (mode : BucketMode) : Worker Storage WorkUnit Fragment := fun units =>
  if mode.isAssigned then SpillSpace.use fun _ => compactBuckets t mode units {} else carryOutTasks mode units

/-- A table lives where its rows are, so no worker of it can be sent elsewhere. -/
def sendable (t : Table) : Except Fault Unit :=
  .error (.reported .badType s!"MemoryTable {t.name} lives in the driver process and cannot be pickled")

def isCommitFault (f : Fault) : Bool := f.kind = .commitFailed || f.kind = .commitConflict

/-- Commits all fragments that change something as one snapshot; if there are none nothing is committed. -/
def commitFragments (t : Table) (user : String) (fragments : List Fragment) : Action (Option Nat) := do
  let changes := fragments.filter (!·.isEmpty)
  if changes.isEmpty then return none
  let broken (f : Fault) : Fault := if isCommitFault f then f else .commitBroke changes.length t.name f
  some <$> (Committer.commit { user } t changes).mapFault broken

end Compaction.Table
