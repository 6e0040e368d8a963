/-!
# Bucket modes

How the rows of a partition are spread over buckets.
-/

namespace Compaction

/-- How rows are assigned to the buckets of a table. -/
inductive BucketMode where
  | fixed
  | dynamic
  | unaware
  | crossPartition
  deriving DecidableEq

namespace BucketMode

def name : BucketMode → String
  | fixed => "fixed"
  | dynamic => "dynamic"
  | unaware => "unaware"
  | crossPartition => "cross-partition"

def all : List BucketMode := [fixed, dynamic, unaware, crossPartition]

def ofName? (s : String) : Option BucketMode := all.find? fun m => m.name == s

/-- Whether every bucket is a unit of work of its own. -/
def isAssigned : BucketMode → Bool
  | fixed | dynamic => true
  | unaware | crossPartition => false

end BucketMode

end Compaction
