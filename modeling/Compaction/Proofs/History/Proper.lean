import Compaction.Proofs.History.Rewriting
import Compaction.Proofs.Table.Proper

/-!
# Tables whose buckets can be found

Whatever is done with a table that began empty, every bucket that it lists has files and a partition that is a key
(`Reached.proper`).
-/

namespace Compaction.World

variable {t : Table} {w : World}

/-- Compacting a unit lists nothing anew. -/
theorem manifest_compact (w : World) (t : Table) (job unit : Nat) (full : Bool) (place : Nat) :
    (w.compact t job unit full place).storage.manifest = w.storage.manifest := by
  have hsame := fun u => (t.onlyWrites_compactUnit full u w.storage).manifest
  rcases w.compact_cases t job unit full place with e | ⟨j, u, -, -, ⟨fault, s, hu, e⟩ | ⟨fs, s, hu, e⟩⟩
  · rw [e]
  · rw [e, ← hsame u, hu]
  · rw [e, ← hsame u, hu]

private theorem proper_commit (h : w.storage.manifest.Proper) (t : Table) (job : Nat) (user : String) :
    (w.commit t job user).storage.manifest.Proper := by
  rcases w.commit_cases t job user with e | ⟨j, -, e⟩
  · rwa [e]
  · rw [e]
    exact Table.proper_commitFragments h t user j.fragments

private theorem proper_step (h : w.storage.manifest.Proper) (t : Table) (e : Event) :
    (w.step t e).storage.manifest.Proper := by
  cases e with
  | append options rows bucket user =>
    have happend := w.storage_append (t.handle options) rows bucket user
    rw [step, happend]
    exact Table.proper_append h (t.handle options) rows bucket user
  | plan options request =>
    have hsame := w.storage_plan (t.handle options) request
    rw [step, hsame]
    exact h
  | compact options job unit full place =>
    have hsame := w.manifest_compact (t.handle options) job unit full place
    rw [step, hsame]
    exact h
  | commit options job user => exact proper_commit h (t.handle options) job user
  | abandon job => exact h

theorem Reached.proper (h : w.Reached t) : w.storage.manifest.Proper := by
  induction h with
  | start => exact Manifest.proper_nil
  | step _ e ih => exact proper_step ih t e
  | overwrite _ options rows strategy columns ih =>
    exact Table.proper_writeSorted ih (t.handle options) rows strategy columns

end Compaction.World
