import Compaction.Table.Storage
import Compaction.Text.Checksum
import Compaction.Text.Utf8
import Compaction.Value.Whole

/-!
# Tables

A table as a caller holds it: its layout and its options. The rows are in a storage, which several such handles may
share. A row belongs to the partition of its key columns; on a table of fixed buckets its bucket is a checksum of its
bucket columns.
-/

namespace Compaction

structure Table where
  name : String
  /-- The partition columns. -/
  keys : List String
  mode : BucketMode
  buckets : Int
  bucketKeys : List String
  options : List (String × String)

namespace Table

/-- The options of a table that sets none: files of at least 128 MiB are left alone, and between 5 and 50 smaller ones
are merged at a time. -/
def defaultOptions : List (String × String) := [
  ("write-only", "false"),
  ("target-file-size", "134217728"),
  ("compaction.min.file-num", "5"),
  ("compaction.max.file-num", "50")]

/-- Options with some of them set anew. -/
def override (options changes : List (String × String)) : List (String × String) :=
  changes.foldl (fun os o => insertEntry id o.1 o.2 os) options

def create (name : String) (keys : List String) (mode : BucketMode) (buckets : Int) (bucketKeys : List String)
    (options : List (String × String)) : Except Fault Table :=
  if mode = .fixed ∧ buckets < 1 then .error (.needsBucket name)
  else .ok ⟨name, keys, mode, buckets, bucketKeys, override defaultOptions options⟩

/-- The same table with some options set anew. -/
def withOptions (t : Table) (changes : List (String × String)) : Table :=
  { t with options := override t.options changes }

/-- A table as it is shown. -/
def literal (t : Table) : List Char :=
  "MemoryTable(".toList ++ Text.quoted t.name.toList ++ ", bucket_mode=".toList ++ t.mode.name.toList ++ [')']

def option (t : Table) (name : String) : String := (t.options.lookup name).getD ""

def numericOption (t : Table) (name : String) : Except Fault Int :=
  Value.wholeOfText 10 (t.option name).toList

/-- Files of this size are not merged. -/
def targetFileSize (t : Table) : Except Fault Int := t.numericOption "target-file-size"

def minFiles (t : Table) : Except Fault Int := t.numericOption "compaction.min.file-num"

def maxFiles (t : Table) : Except Fault Int := t.numericOption "compaction.max.file-num"

/-- Whether writers leave compaction to others. -/
def isWriteOnly (t : Table) : Bool :=
  Text.lowered (Text.trim (t.option "write-only").toList) = ['t', 'r', 'u', 'e']

def partitionOf (t : Table) (r : Row) : Except Fault Partition :=
  t.keys.mapM fun k => match r.get? k with
    | some v => .ok v
    | none => .error (Fault.missingPartitionColumn r k t.name).raised

/-- The columns that decide on the bucket of a row: the bucket columns, or all that are no partition columns. -/
def bucketColumns (t : Table) (r : Row) : List String :=
  if t.bucketKeys.isEmpty then
    Order.sorted (fun a b => compareTexts a b = .lt) (r.columns.filter (!t.keys.contains ·))
  else t.bucketKeys

/-- The checksum of the bucket columns of a row. -/
def checksum (t : Table) (r : Row) : Nat :=
  (Text.crc32 (Text.Utf8.encode (Text.tupleText (Value.literals ((t.bucketColumns r).map r.get))))).toNat

def bucketOf (t : Table) (r : Row) : Except Fault Int :=
  if t.mode ≠ .fixed ∨ t.buckets = 1 then .ok 0
  else if Value.printsAll ((t.bucketColumns r).map r.get) then .ok ((t.checksum r : Int).fmod t.buckets)
  else .error .unprintable

/-- The bucket that a row is written into, which is the given one if there is one. -/
def bucketFor (t : Table) (bucket : Option Int) (r : Row) : Except Fault Int :=
  match bucket with
  | some b => .ok b
  | none => t.bucketOf r

end Table

end Compaction
