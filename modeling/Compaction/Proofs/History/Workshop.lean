import Compaction.Proofs.History.Moves

/-!
# Sorting jobs among other jobs

A sorting job reads all rows and writes them back later, in order, in the place of whatever their partitions hold by
then. As long as nothing is appended, jobs of either kind get along, in whatever order their steps come: the rows of
the table stay the same (`turns_keep_rows`). The invariant is that the table and every sorting job hold these rows
(`Workshop.Holds`), so rows that were read long ago are still those that they replace.
-/

namespace Compaction

/-- A table with jobs in progress, and the rows that sorting jobs have read. -/
structure Workshop where
  world : World := {}
  readings : List (List Row) := []

/-- What a caller may do next. -/
inductive Turn where
  | event (e : Event)
  /-- Begins a sorting job. -/
  | read (filter : Option Filter)
  /-- Sorts what a job has read and writes it back. -/
  | write (options : List (String × String)) (reading : Nat) (strategy : Strategy) (columns : List String)

def Event.IsAppend : Event → Prop
  | .append .. => True
  | _ => False

/-- Whether this is a step of a job, and no sorting job that it begins passes over rows. -/
def Turn.IsJobStep : Turn → Prop
  | .event e => ¬ e.IsAppend
  | .read filter => filter = none
  | .write .. => True

namespace Workshop

def read (s : Workshop) (filter : Option Filter) : Workshop :=
  match s.world.storage.readRows filter with
  | .ok rows => { s with readings := s.readings ++ [rows] }
  | .error _ => s

def write (s : Workshop) (t : Table) (reading : Nat) (strategy : Strategy) (columns : List String) : Workshop :=
  match s.readings[reading]? with
  | none => s
  | some rows => { s with world := s.world.overwrite t rows strategy columns }

def turn (t : Table) (s : Workshop) : Turn → Workshop
  | .event e => { s with world := s.world.step t e }
  | .read filter => s.read filter
  | .write options reading strategy columns => s.write (t.handle options) reading strategy columns

/-- Whether a table is sound, and it and all sorting jobs hold just the given rows. -/
structure Holds (t : Table) (rows : List Row) (s : Workshop) : Prop where
  sound : s.world.Sound t
  live : s.world.rows.Perm rows
  readings : ∀ reading ∈ s.readings, reading.Perm rows

variable {t : Table} {s : Workshop} {w : World} {rows : List Row}

private theorem appended_step {e : Event} (he : ¬ e.IsAppend) : (w.step t e).appended = w.appended := by
  cases e with
  | append options rows bucket user => exact absurd trivial he
  | plan options request =>
    simp only [World.step, World.plan]
    split <;> rfl
  | compact options job unit full place =>
    rw [World.step]
    rcases w.compact_cases (t.handle options) job unit full place with
      e | ⟨j, u, -, -, ⟨fault, s, -, e⟩ | ⟨fs, s, -, e⟩⟩ <;> rw [e]
  | commit options job user =>
    rw [World.step]
    rcases w.commit_cases (t.handle options) job user with e | ⟨j, -, e⟩
    · rw [e]
    · rw [e]
      rfl
  | abandon job => rfl

namespace Holds

theorem event (h : s.Holds t rows) {e : Event} (he : ¬ e.IsAppend) : (s.turn t (.event e)).Holds t rows := by
  have hgains := World.gains_step h.sound e
  obtain ⟨new, happ, hrows⟩ := hgains.rows
  rw [appended_step he, List.self_eq_append_right] at happ
  rw [happ, List.append_nil] at hrows
  exact ⟨hgains.sound, hrows.trans h.live, h.readings⟩

theorem read (h : s.Holds t rows) : (s.read none).Holds t rows := by
  unfold Workshop.read
  rw [h.sound.storage.readRows_none]
  refine ⟨h.sound, h.live, fun reading hmem => ?_⟩
  rcases List.mem_append.1 hmem with hmem | hmem
  · exact h.readings reading hmem
  · rw [List.mem_singleton.1 hmem]
    exact h.live

theorem write (h : s.Holds t rows) (options : List (String × String)) (reading : Nat) (strategy : Strategy)
    (columns : List String) : (s.write (t.handle options) reading strategy columns).Holds t rows := by
  unfold Workshop.write
  cases hr : s.readings[reading]? with
  | none => exact h
  | some read =>
    have hread := (h.readings read (List.mem_of_getElem? hr)).trans h.live.symm
    have hkept := (t.handle options).writeSorted_keeps_rows (h.sound.storage.handle options) hread strategy columns
    exact ⟨World.sound_overwrite h.sound options read strategy columns, hkept.trans h.live, h.readings⟩

theorem turn (h : s.Holds t rows) {next : Turn} (hnext : next.IsJobStep) : (s.turn t next).Holds t rows := by
  cases next with
  | event e => exact h.event hnext
  | read filter =>
    obtain rfl : filter = none := hnext
    exact h.read
  | write options reading strategy columns => exact h.write options reading strategy columns

theorem turns (h : s.Holds t rows) (turns : List Turn) (hturns : ∀ next ∈ turns, next.IsJobStep) :
    (turns.foldl (Workshop.turn t) s).Holds t rows := by
  induction turns generalizing s with
  | nil => exact h
  | cons next rest ih =>
    rw [List.forall_mem_cons] at hturns
    exact ih (h.turn hturns.1) hturns.2

end Holds

/-- Whatever has been done with a table: from then on any steps of jobs that merge and of jobs that sort, in any order
and on any handles, leave it with the same rows, whichever of their commits succeed. -/
theorem turns_keep_rows (t : Table) (moves : List Move) (turns : List Turn)
    (hturns : ∀ next ∈ turns, next.IsJobStep) :
    let w := World.play t {} moves
    let s := turns.foldl (turn t) { world := w }
    ∃ rows rows', w.storage.readRows none = .ok rows ∧ s.world.storage.readRows none = .ok rows' ∧
      rows'.Perm rows := by
  intro w s
  have hw : w.Sound t := (World.Reached.start.play moves).sound
  have hstart : Holds t w.rows { world := w } := ⟨hw, .refl _, by simp⟩
  have hend : s.Holds t w.rows := hstart.turns turns hturns
  exact ⟨w.rows, s.world.rows, hw.storage.readRows_none, hend.sound.storage.readRows_none, hend.live⟩

/-- Two files are merged while their rows are sorted: the merge conflicts. Rows that were read before a merge are
written back after it. -/
theorem turns_keep_rows_of_two_jobs :
    let t : Table :=
      ⟨"t", ["dt"], .unaware, 1, [], Table.override Table.defaultOptions [("compaction.min.file-num", "2")]⟩
    let append (n : Int) : Move := .event (.append t.options [[("dt", .int 1), ("v", .int n)]] none "u")
    let w := World.play t {} [append 2, append 1]
    let begin : List Turn := [.read none, .event (.plan t.options {}), .event (.compact t.options 0 0 true 0)]
    let commit : Turn := .event (.commit t.options 0 "c")
    let write : Turn := .write t.options 0 .order ["v"]
    let run (turns : List Turn) : Workshop := turns.foldl (turn t) { world := w }
    let kinds (s : Workshop) : List String := s.world.storage.snapshots.map Snapshot.kind
    kinds (run (begin ++ [write, commit])) = ["APPEND", "APPEND", "OVERWRITE"] ∧
    kinds (run (begin ++ [commit, write])) = ["APPEND", "APPEND", "COMPACT", "OVERWRITE"] ∧
    ∀ last ∈ [[write, commit], [commit, write]], ∃ rows rows', w.storage.readRows none = .ok rows ∧
      (run (begin ++ last)).world.storage.readRows none = .ok rows' ∧ rows'.Perm rows := by
  intro t append w begin commit write run kinds
  refine ⟨by decide +kernel, by decide +kernel, fun last hlast => ?_⟩
  have hsteps : ∀ next ∈ begin ++ last, next.IsJobStep := by
    have hlast : last = [write, commit] ∨ last = [commit, write] := by simpa using hlast
    rcases hlast with rfl | rfl <;> simp [begin, commit, write, Turn.IsJobStep, Event.IsAppend]
  exact turns_keep_rows t [append 2, append 1] (begin ++ last) hsteps

end Workshop

end Compaction
