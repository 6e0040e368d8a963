import Compaction.Table.Fragment
import Compaction.Value.Text

/-!
# Tasks and units

What is to be merged, and the units that the work of a job is split into.
-/

namespace Compaction

/-- The files of one partition that are to be merged. -/
structure Task where
  partition : Partition
  files : List DataFile

/-- What a worker is given: a bucket to compact, or an encoded task. -/
inductive WorkUnit where
  | bucket (partition : Partition) (bucket : Int)
  | task (version : Int) (payload : List UInt8)

/-- A unit of work as messages show it. -/
def WorkUnit.literal : WorkUnit → List Char
  | .bucket p b =>
    "AssignedBucket(partition=".toList ++ Partition.literal p ++ ", bucket=".toList ++ Text.signed b ++ [')']
  | .task v payload =>
    "PlannedTask(version=".toList ++ Text.signed v ++ ", payload=".toList ++ Text.quotedBytes payload ++ [')']

def WorkUnit.prints : WorkUnit → Bool
  | .bucket p b => p.prints && Number.prints b
  | .task v _ => Number.prints v

end Compaction
