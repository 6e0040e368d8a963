import Compaction.Proofs.History.Proper
import Compaction.Proofs.Table.Confined

/-!
# Where files go

A live file stays under the bucket that it is listed under for as long as it is live, and then never comes back,
whatever is done with the table (`Confines.play`): what a commit or an append lists anew was never listed before.
-/

namespace Compaction

/-- What may be done next with a table whose partitions are also overwritten. -/
inductive Move where
  | event (e : Event)
  | overwrite (options : List (String × String)) (rows : List Row) (strategy : Strategy) (columns : List String)

namespace World

def move (t : Table) (w : World) : Move → World
  | .event e => w.step t e
  | .overwrite options rows strategy columns => w.overwrite (t.handle options) rows strategy columns

/-- What a table comes to by some moves. -/
def play (t : Table) (w : World) (moves : List Move) : World := moves.foldl (move t) w

/-- Whether a file is stored, does not wait to become live, and if it is live, then under a bucket of a certain kind. -/
structure Confines (w : World) (kind : BucketKey → Prop) (x : DataFile) : Prop where
  storage : w.storage.Confines kind x
  waiting : ∀ f ∈ w.pending, x ∉ f.after

variable {t : Table} {w : World} {kind : BucketKey → Prop} {x : DataFile} {moves : List Move}

theorem Reached.move (h : w.Reached t) (m : Move) : (w.move t m).Reached t := by
  cases m with
  | event e => exact h.step e
  | overwrite options rows strategy columns => exact h.overwrite options rows strategy columns

theorem play_append (t : Table) (w : World) (moves moves' : List Move) :
    w.play t (moves ++ moves') = (w.play t moves).play t moves' := List.foldl_append

theorem Reached.play (h : w.Reached t) (moves : List Move) : (w.play t moves).Reached t := by
  induction moves generalizing w with
  | nil => exact h
  | cons m rest ih => exact ih (h.move m)

/-- Whatever a table may come to it comes to by some moves. -/
theorem Reached.exists_play (h : w.Reached t) : ∃ moves, w = World.play t {} moves := by
  induction h with
  | start => exact ⟨[], rfl⟩
  | step _ e ih =>
    obtain ⟨moves, rfl⟩ := ih
    refine ⟨moves ++ [.event e], ?_⟩
    rw [play_append]
    rfl
  | overwrite _ options rows strategy columns ih =>
    obtain ⟨moves, rfl⟩ := ih
    refine ⟨moves ++ [.overwrite options rows strategy columns], ?_⟩
    rw [play_append]
    rfl

/-- What every move keeps is kept by all of them. -/
theorem Reached.play_induction {P : World → Prop} (hw : w.Reached t) (h : P w)
    (hmove : ∀ {w : World} (m : Move), w.Reached t → P w → P (w.move t m)) (moves : List Move) :
    P (w.play t moves) := by
  induction moves generalizing w with
  | nil => exact h
  | cons m rest ih => exact ih (hw.move m) (hmove m hw h)

/-- A live file is confined to the bucket that it is listed under. -/
theorem Sound.confines (h : w.Sound t) {e : Entry} (he : e ∈ w.storage.manifest) (hx : x ∈ e.files) :
    w.Confines (· = e.key) x := by
  refine ⟨.of_mem h.storage he hx, fun f hf hafter => ?_⟩
  have hlive : x ∈ w.storage.manifest.files := Manifest.mem_files.2 ⟨e, he, hx⟩
  exact List.disjoint_of_nodup_append h.fresh hlive (List.mem_flatMap.2 ⟨f, hf, hafter⟩)

namespace Confines

theorem append (h : w.Confines kind x) (hs : w.Sound t) (options : List (String × String)) (rows : List Row)
    (bucket : Option Int) (user : String) : (w.append (t.handle options) rows bucket user).Confines kind x := by
  constructor
  · rw [storage_append]
    exact h.storage.append hs.storage.numbered (t.handle options) rows bucket user
  · rw [pending, jobs_append]
    exact h.waiting

theorem plan (h : w.Confines kind x) (t : Table) (request : Request) : (w.plan t request).Confines kind x := by
  constructor
  · rw [storage_plan]
    exact h.storage
  · rw [pending_plan]
    exact h.waiting

theorem compact (h : w.Confines kind x) (hs : w.Sound t) (t' : Table) (job unit : Nat) (full : Bool) (place : Nat) :
    (w.compact t' job unit full place).Confines kind x := by
  rcases hs.compact_cases t' job unit full place with ⟨s', files, e, hw⟩ | ⟨j, u, fs, s', hj, -, -, hc, e⟩
  · rw [e]
    exact ⟨h.storage.grows ⟨hw.extends_, hw.snapshots⟩, h.waiting⟩
  · rw [e]
    refine ⟨h.storage.grows ⟨hc.writes.extends_, hc.writes.snapshots⟩, fun f hf hafter => ?_⟩
    rcases List.mem_append.1 ((pending_insert hj place fs).subset hf) with hf | hf
    · exact h.waiting f hf hafter
    · exact hc.writes.fresh x (List.mem_flatMap.2 ⟨f, hf, hafter⟩) h.storage.stored

theorem abandon (h : w.Confines kind x) (job : Nat) : (w.abandon job).Confines kind x :=
  ⟨h.storage, fun f hf => h.waiting f (mem_pending_of_abandon job hf)⟩

theorem commit (h : w.Confines kind x) (hs : w.Sound t) (options : List (String × String)) (job : Nat)
    (user : String) : (w.commit (t.handle options) job user).Confines kind x := by
  rcases w.commit_cases (t.handle options) job user with e | ⟨j, hj, e⟩
  · rwa [e]
  · rw [e]
    refine ⟨h.storage.commitFragments (fun f hf hx => ?_) (t.handle options) user, (h.abandon job).waiting⟩
    rw [(hs.merges f (mem_pending hj f hf)).brought] at hx
    exact h.waiting f (mem_pending hj f hf) hx

theorem move (h : w.Confines kind x) (hs : w.Sound t) (m : Move) : (w.move t m).Confines kind x := by
  cases m with
  | event e =>
    cases e with
    | append options rows bucket user => exact h.append hs options rows bucket user
    | plan options request => exact h.plan (t.handle options) request
    | compact options job unit full place => exact h.compact hs (t.handle options) job unit full place
    | commit options job user => exact h.commit hs options job user
    | abandon job => exact h.abandon job
  | overwrite options rows strategy columns =>
    exact ⟨h.storage.writeSorted hs.storage.numbered (t.handle options) rows strategy columns, h.waiting⟩

theorem play (h : w.Confines kind x) (hw : w.Reached t) (moves : List Move) : (w.play t moves).Confines kind x :=
  hw.play_induction (P := fun w => w.Confines kind x) h (fun m hw h => h.move hw.sound m) moves

/-- What is live no more is confined to nothing. -/
theorem gone (h : w.Confines kind x) (hx : x ∉ w.storage.manifest.files) : w.Confines (fun _ => False) x :=
  ⟨.of_not_mem h.storage.stored hx, h.waiting⟩

end Confines

end World

end Compaction
