import Compaction.Table.Commit

/-!
# Merging files

Handles that merge files of a table and collect the fragments to commit. Merging reads the rows of the files in order
and writes them into one new file; the table is not changed before the commit.
-/

namespace Compaction

/-- Does some work with spill directories, which are removed however the work ends. -/
def SpillSpace.use {α : Type} (work : SpillSpace → Action α) : Action α := fun s =>
  match create s.host.bases s.host.disk with
  | (.error f, disk) => (.error f, s.withDisk disk)
  | (.ok space, disk) =>
    let (result, s) := work space (s.withDisk disk)
    (result, s.withDisk (space.close s.host.disk).2)

/-- The rows of some files in one new file. -/
def mergeFiles (files : List DataFile) (level : Int) : Action DataFile := do
  let rows ← Effect.ofRead fun s => s.read files
  Storage.writeFile rows level

/-- Merges the files of whole buckets. -/
structure BucketWriter where
  isClosed : Bool := false
  fragments : List Fragment := []

namespace BucketWriter

/-- The files of a bucket that are worth merging: all of them, or only small ones, of which there have to be enough. -/
def candidates (t : Table) (files : List DataFile) (full : Bool) : Except Fault (List DataFile) :=
  if full then .ok files
  else do
    let target ← t.targetFileSize
    let small := files.filter (·.size < target)
    if (small.length : Int) < (← t.minFiles) then return [] else return small

def highestLevel : List DataFile → Int
  | [] => 0
  | f :: rest => rest.foldl (fun level g => max level g.level) f.level

/-- Merges the files of a bucket into one of the next level; a single file is left alone, and so is every file of a
table that is written only. -/
def compact (w : BucketWriter) (t : Table) (partition : Partition) (bucket : Int) (full : Bool) :
    Action BucketWriter := do
  if w.isClosed then throw .writeClosed
  if t.isWriteOnly then return w
  let files ← Effect.ofRead fun s => candidates t (s.files (some partition) (some bucket)) full
  if files.length < 2 then return w
  let merged ← mergeFiles files (highestLevel files + 1)
  let fragment : Fragment := { partition, bucket, before := files, after := [merged] }
  return { w with fragments := w.fragments ++ [fragment] }

/-- The fragments so far, which the writer gives away. -/
def prepare (w : BucketWriter) : List Fragment × BucketWriter := (w.fragments, { w with fragments := [] })

end BucketWriter

/-- Merges files that a task names. -/
structure TaskWriter where
  isClosed : Bool := false

/-- Merges the files of a task into one of level 0. The fragment is for bucket 0 of the partition. -/
def TaskWriter.compact (w : TaskWriter) (task : Task) : Action Fragment := do
  if task.files.isEmpty then throw (Fault.nothingToMerge task.partition).raised
  if w.isClosed then throw .writeClosed
  let merged ← mergeFiles task.files 0
  return { partition := task.partition, bucket := 0, before := task.files, after := [merged] }

/-- Commits fragments under one identity. -/
structure Committer where
  user : String
  isClosed : Bool := false

def Committer.commit (c : Committer) (t : Table) (fragments : List Fragment) : Action Nat := do
  if c.isClosed then throw .commitClosed
  t.apply c.user "COMPACT" fragments

end Compaction
