import Compaction.Table.Basic

/-!
# Planning tasks

Which files of a table without assigned buckets are to be merged. The files of each bucket are taken in chunks; a chunk
of one file is left alone.

* `flatten_chunks` — no file is lost or moved by chunking.
-/

namespace Compaction

/-- Stretches of `size` elements, the last one maybe shorter. -/
def chunks {α : Type} (size : Nat) (xs : List α) : List (List α) :=
  (List.range ((xs.length + size - 1) / size)).map fun i => (xs.drop (i * size)).take size

private theorem flatten_firstChunks {α : Type} (size : Nat) (xs : List α) (n : Nat) :
    ((List.range n).map fun i => (xs.drop (i * size)).take size).flatten = xs.take (n * size) := by
  induction n with
  | zero => simp
  | succ n ih =>
    rw [List.range_succ, List.map_append, List.flatten_append, ih, Nat.succ_mul, List.take_add]
    simp

theorem flatten_chunks {α : Type} {size : Nat} (h : 0 < size) (xs : List α) : (chunks size xs).flatten = xs := by
  rw [chunks, flatten_firstChunks, List.take_of_length_le]
  have := Nat.div_add_mod (xs.length + size - 1) size
  have := Nat.mod_lt (xs.length + size - 1) h
  have := Nat.mul_comm ((xs.length + size - 1) / size) size
  omega

namespace Table

/-- The tasks of one bucket. -/
def entryTasks (target least most : Int) (full : Bool) (e : Entry) : List Task :=
  let candidates := if full then e.files else e.files.filter (·.size < target)
  if (candidates.length : Int) < (if full then 2 else least) then []
  else ((chunks most.toNat candidates).filter (2 ≤ ·.length)).map fun files => ⟨e.partition, files⟩

/-- The tasks for the files below the target size, or for all files; a chunk has at least two. -/
def planTasks (t : Table) (s : Storage) (full : Bool) (predicate : Option Predicate) : Except Fault (List Task) := do
  let target ← t.targetFileSize
  let least ← t.minFiles
  let most := max 2 (← t.maxFiles)
  return (← s.scan predicate).flatMap (entryTasks target least most full)

end Table

end Compaction
