import Compaction.Proofs.History.Rewriting
import Compaction.Proofs.Job.Sequence
import Compaction.Proofs.Table.Houses
import Compaction.Proofs.Value.Text

/-!
# Buckets named by their rows

Whatever is done with a table, every bucket that it lists is named by the partition of one of its rows, and no pending
fragment replaces nothing (`World.Named`, `Reached.named`). So every listed partition has a text, since rows without
one cannot be written (`Reached.prints_partition`).
-/

namespace Compaction

/-- Partitions that name rows of the table have a text. -/
theorem Storage.Houses.prints_partition {t : Table} {P : BucketKey → Row → Prop} {s : Storage} (h : s.Houses t P)
    (hs : s.Sound t) : ∀ e ∈ s.manifest, e.partition.prints := by
  intro e he
  obtain ⟨r, hr, hpartition⟩ := (h e he).named
  obtain ⟨-, hpartition⟩ := Table.partitionOf_eq_ok.1 hpartition
  have hprints : r.prints := by
    obtain ⟨x, hx, hr⟩ := List.mem_flatMap.1 hr
    exact hs.manifest.printed x (Manifest.mem_files.2 ⟨e, he, hx⟩) r hr
  rw [← hpartition, Partition.prints, Value.printsAll_iff, List.forall_mem_map]
  exact fun k _ => Row.prints_get hprints k

namespace World

/-- Whether buckets are named by their rows and stay so if fragments that wait are committed. -/
structure Named (t : Table) (w : World) : Prop where
  houses : w.storage.Houses t fun _ _ => True
  before : ∀ f ∈ w.pending, f.before ≠ []

variable {t : Table} {w : World}

namespace Named

theorem empty (t : Table) : Named t {} := ⟨Storage.houses_empty t _, by simp [pending]⟩

theorem append (h : w.Named t) (hs : w.Sound t) (options : List (String × String)) (rows : List Row)
    (bucket : Option Int) (user : String) : (w.append (t.handle options) rows bucket user).Named t := by
  have hhouses : w.storage.Houses (t.handle options) fun _ _ => True := h.houses.of_keys rfl
  constructor
  · rw [storage_append]
    exact (hhouses.append (hs.storage.handle options) bucket (fun _ _ _ _ _ => trivial) rows user).of_keys rfl
  · rw [pending, jobs_append]
    exact h.before

theorem plan (h : w.Named t) (t' : Table) (request : Request) : (w.plan t' request).Named t := by
  constructor
  · rw [storage_plan]
    exact h.houses
  · rw [pending_plan]
    exact h.before

theorem compact (h : w.Named t) (hs : w.Sound t) (t' : Table) (job unit : Nat) (full : Bool) (place : Nat) :
    (w.compact t' job unit full place).Named t := by
  rcases hs.compact_cases t' job unit full place with ⟨s', files, e, hw⟩ | ⟨j, u, fs, s', hj, -, hmade, hc, e⟩
  · rw [e]
    exact ⟨h.houses.grows hs.storage ⟨hw.extends_, hw.snapshots⟩, h.before⟩
  · rw [e]
    refine ⟨h.houses.grows hs.storage ⟨hc.writes.extends_, hc.writes.snapshots⟩, fun f hf => ?_⟩
    rcases List.mem_append.1 ((pending_insert hj place fs).subset hf) with hf | hf
    · exact h.before f hf
    · exact Table.before_of_compactUnit hmade f hf

theorem abandon (h : w.Named t) (job : Nat) : (w.abandon job).Named t :=
  ⟨h.houses, fun f hf => h.before f (mem_pending_of_abandon job hf)⟩

theorem commit (h : w.Named t) (hs : w.Sound t) (t' : Table) (job : Nat) (user : String) :
    (w.commit t' job user).Named t := by
  rcases w.commit_cases t' job user with e | ⟨j, hj, e⟩
  · rwa [e]
  · rw [e]
    exact ⟨h.houses.commitFragments hs.storage (fun f hf => hs.merges f (mem_pending hj f hf))
      (fun f hf => h.before f (mem_pending hj f hf)) t' user, (h.abandon job).before⟩

theorem overwrite (h : w.Named t) (hs : w.Sound t) (options : List (String × String)) (rows : List Row)
    (strategy : Strategy) (columns : List String) : (w.overwrite (t.handle options) rows strategy columns).Named t := by
  have hhouses : w.storage.Houses (t.handle options) fun _ _ => True := h.houses.of_keys rfl
  refine ⟨?_, h.before⟩
  exact (hhouses.writeSorted (hs.storage.handle options) (fun _ _ _ => trivial) rows strategy columns).of_keys rfl

theorem step (h : w.Named t) (hs : w.Sound t) (e : Event) : (w.step t e).Named t := by
  cases e with
  | append options rows bucket user => exact h.append hs options rows bucket user
  | plan options request => exact h.plan (t.handle options) request
  | compact options job unit full place => exact h.compact hs (t.handle options) job unit full place
  | commit options job user => exact h.commit hs (t.handle options) job user
  | abandon job => exact h.abandon job

end Named

theorem Reached.named (h : w.Reached t) : w.Named t := by
  induction h with
  | start => exact Named.empty t
  | step hw e ih => exact ih.step hw.sound e
  | overwrite hw options rows strategy columns ih => exact ih.overwrite hw.sound options rows strategy columns

theorem Reached.prints_partition (h : w.Reached t) : ∀ e ∈ w.storage.manifest, e.partition.prints :=
  h.named.houses.prints_partition h.sound.storage

end World

end Compaction
