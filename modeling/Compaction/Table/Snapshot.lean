import Compaction.Table.Fragment
import Compaction.Value.Key

/-!
# Snapshots

A snapshot lists the data files of every bucket of every partition, in the order in which the buckets came up. Buckets
are found by the key of their partition, so `[1]` and `[True]` are one partition, shown as it was first written.

* `filesAt_put_self` — what is put under a bucket is found there;
* `filesAt_put_of_ne` — and every other bucket keeps its files.
-/

namespace Compaction

/-- The files of one bucket of one partition. -/
structure Entry where
  partition : Partition
  bucket : Int
  files : List DataFile

def Entry.key (e : Entry) : List (Option Key) × Int := (e.partition.keys, e.bucket)

abbrev Manifest := List Entry

namespace Manifest

/-- The files under a bucket. -/
def filesAt : Manifest → List (Option Key) × Int → List DataFile
  | [], _ => []
  | e :: rest, key => if e.key = key then e.files else filesAt rest key

/-- Puts files under a bucket, in the place of those that are there. -/
def put (p : Partition) (bucket : Int) (files : List DataFile) : Manifest → Manifest
  | [] => [⟨p, bucket, files⟩]
  | e :: rest =>
    if e.key = (p.keys, bucket) then { e with files := files } :: rest else e :: put p bucket files rest

def files (m : Manifest) : List DataFile := m.flatMap Entry.files

theorem filesAt_put_self (m : Manifest) (p : Partition) (bucket : Int) (files : List DataFile) :
    (m.put p bucket files).filesAt (p.keys, bucket) = files := by
  induction m with
  | nil => simp [put, filesAt, Entry.key]
  | cons e rest ih =>
    by_cases h : e.key = (p.keys, bucket)
    · have h' : ({ e with files := files } : Entry).key = (p.keys, bucket) := h
      simp [put, filesAt, h, h']
    · simp [put, filesAt, h, ih]

theorem filesAt_put_of_ne {m : Manifest} {p : Partition} {bucket : Int} {files : List DataFile}
    {key : List (Option Key) × Int} (hk : key ≠ (p.keys, bucket)) :
    (m.put p bucket files).filesAt key = m.filesAt key := by
  induction m with
  | nil => simp [put, filesAt, Entry.key, Ne.symm hk]
  | cons e rest ih =>
    by_cases h : e.key = (p.keys, bucket)
    · have h' : ({ e with files := files } : Entry).key = (p.keys, bucket) := h
      simp [put, filesAt, h, h', Ne.symm hk]
    · simp [put, filesAt, h, ih]

end Manifest

/-- One version of a table. -/
structure Snapshot where
  id : Nat
  user : String
  kind : String
  manifest : Manifest

def Snapshot.fileCount (s : Snapshot) : Nat := s.manifest.files.length

end Compaction
