import Compaction.Job.Request
import Compaction.Table.Tasks
import Compaction.Task.Codec

/-!
# Planning units

The units that a request is split into. On a table of assigned buckets each bucket that the filter selects is a unit; on
a table without them the units are encoded tasks. Sorting is not split.
-/

namespace Compaction.Table

def planBuckets (s : Storage) (predicate : Option Predicate) : Except Fault (List WorkUnit) := do
  return (← s.scan predicate).map fun e => .bucket e.partition e.bucket

def encodeTask (task : Task) : Except Fault WorkUnit := do
  return .task Task.currentVersion (← task.encode Task.currentVersion)

/-- The units of a table under a predicate. -/
def unitsUnder (t : Table) (s : Storage) (predicate : Option Predicate) : Except Fault (List WorkUnit) :=
  match t.mode with
  | .fixed | .dynamic => planBuckets s predicate
  | .unaware => do (← t.planTasks s false predicate).mapM encodeTask
  | .crossPartition => .error (.notDecomposable t.mode t.name)

/-- The predicate of a filter on the table's partitions. -/
def bindFilter (t : Table) (filter : Option Filter) : Except Fault (Option Predicate) :=
  match filter with
  | none => .ok none
  | some f => do return some (← f.bind t.keys)

def plan (t : Table) (s : Storage) (r : Request) : Except Fault (List WorkUnit) :=
  if r.strategy ≠ .none then .ok []
  else do t.unitsUnder s (← t.bindFilter r.filter)

end Compaction.Table
