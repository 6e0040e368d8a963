import Compaction.Table.Basic

/-!
# Commits

A commit applies fragments to the latest snapshot, all of them or none: first every fragment takes away the files that
it replaces, which have to be there, then every fragment adds its new ones.
-/

namespace Compaction.Table

def unhashable {α : Type} : Except Fault α := .error (.bare .badType)

/-- Takes away the files that a fragment replaces. -/
def takeBefore (t : Table) (user : String) (m : Manifest) (f : Fragment) : Except Fault Manifest :=
  if !f.partition.isKey then unhashable
  else
    let live := m.filesAt (f.partition.keys, f.bucket)
    let missing := f.before.filter (!live.contains ·)
    if missing.isEmpty then .ok (m.put f.partition f.bucket (live.filter (!f.before.contains ·)))
    else .error (Fault.conflict user t.name f.partition f.bucket (missing.map DataFile.name)).raised

/-- Adds the files that a fragment brings. -/
def addAfter (m : Manifest) (f : Fragment) : Manifest :=
  m.put f.partition f.bucket (m.filesAt (f.partition.keys, f.bucket) ++ f.after ++ f.added)

/-- What the fragments make of a manifest. -/
def applyTo (t : Table) (user : String) (m : Manifest) (fragments : List Fragment) : Except Fault Manifest := do
  let taken ← fragments.foldlM (t.takeBefore user) m
  return fragments.foldl addAfter taken

/-- Adds the snapshot that the fragments lead to, and gives its number. -/
def apply (t : Table) (user kind : String) (fragments : List Fragment) : Action Nat := do
  let m ← Effect.ofRead fun s => t.applyTo user s.manifest fragments
  Effect.ofChange (Storage.addSnapshot user kind m)

/-- The rows that belong under one bucket of one partition. -/
structure Group where
  partition : Partition
  bucket : Int
  rows : List Row

def Group.key (g : Group) : List (Option Key) × Int := (g.partition.keys, g.bucket)

/-- Adds a row to its group. -/
def addToGroup (p : Partition) (bucket : Int) (r : Row) : List Group → List Group
  | [] => [⟨p, bucket, [r]⟩]
  | g :: rest =>
    if g.key = (p.keys, bucket) then { g with rows := g.rows ++ [r] } :: rest else g :: addToGroup p bucket r rest

/-- The rows by their partition and bucket, the groups in the order of their first rows. -/
def group (t : Table) (bucketOf : Row → Except Fault Int) (rows : List Row) : Except Fault (List Group) :=
  rows.foldlM (fun groups r => do
    let p ← t.partitionOf r
    let bucket ← bucketOf r
    if p.isKey then return addToGroup p bucket r groups else unhashable) []

/-- Writes one file of level 0 for each group. -/
def writeGroups : List Group → Action (List (Group × DataFile))
  | [] => return []
  | g :: rest => do
    let file ← Storage.writeFile g.rows 0
    return (g, file) :: (← writeGroups rest)

/-- Writes rows into new files, one for each bucket, in one snapshot; no rows make none. All go into one bucket if it
is given. -/
def append (t : Table) (rows : List Row) (bucket : Option Int) (user : String) : Action (Option Nat) := do
  let groups ← Effect.ofExcept (t.group (t.bucketFor bucket) rows)
  if groups.isEmpty then return none
  let files ← writeGroups groups
  let fragments := files.map fun e => { partition := e.1.partition, bucket := e.1.bucket, added := [e.2] : Fragment }
  some <$> t.apply user "APPEND" fragments

/-- Puts rows in the place of all that is in their partitions, as one file each in bucket 0, in one snapshot. -/
def overwrite (t : Table) (rows : List Row) (user : String) : Action (Option Nat) := do
  let groups ← Effect.ofExcept (t.group (fun _ => .ok 0) rows)
  if groups.isEmpty then return none
  let files ← writeGroups groups
  let replaced := groups.map fun g => g.partition.keys
  let kept := (← get).manifest.filter fun e => !replaced.contains e.partition.keys
  let m := kept ++ files.map fun e => ⟨e.1.partition, 0, [e.2]⟩
  some <$> Effect.ofChange (Storage.addSnapshot user "OVERWRITE" m)

end Compaction.Table
