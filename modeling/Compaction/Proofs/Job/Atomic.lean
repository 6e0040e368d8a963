import Compaction.Job.Run
import Compaction.Proofs.Job.Exchange
import Compaction.Proofs.Table.Reorder

/-!
# Compacting is all or nothing

Before its commit a job writes files and does nothing else, wherever it stops (`Effect.OnlyWrites`, `onlyWrites_run`).
So a compaction that fails leaves the snapshots and the rows of every file as they were, and one that succeeds adds at
most the one snapshot that it reports (`compact_all_or_nothing`). Slices are run one after another here; threads that
take turns, unit by unit, do no more than that (`Threads.finish_advances`).
-/

namespace Compaction

/-- Whether files were written and nothing else was done. -/
structure Storage.Grows (s s' : Storage) : Prop where
  extends_ : s.Extends s'
  snapshots : s'.snapshots = s.snapshots

/-- Whether an operation writes files and does nothing else, however it ends. -/
def Effect.OnlyWrites {α : Type} (action : Effect Storage α) : Prop :=
  ∀ s : Storage, s.Grows (action s).2

theorem Storage.Grows.refl (s : Storage) : s.Grows s := ⟨.refl s, rfl⟩

theorem Storage.Grows.manifest {s s' : Storage} (h : s.Grows s') : s'.manifest = s.manifest := by
  unfold Storage.manifest latest?
  rw [h.snapshots]

theorem Storage.Grows.trans {s s' s'' : Storage} (h : s.Grows s') (h' : s'.Grows s'') : s.Grows s'' :=
  ⟨h.extends_.trans h'.extends_, h'.snapshots.trans h.snapshots⟩

namespace Effect

variable {α β : Type} {action : Effect Storage α}

private theorem onlyWrites_pure (x : α) : OnlyWrites (pure x) := fun s => .refl s

private theorem onlyWrites_throw (f : Fault) : OnlyWrites (throw f : Effect Storage α) := fun s => .refl s

private theorem onlyWrites_ofRead (read : Storage → Except Fault α) : OnlyWrites (ofRead read) := fun s => .refl s

private theorem onlyWrites_writeFile (rows : List Row) (level : Int) : OnlyWrites (Storage.writeFile rows level) :=
  fun _ => ⟨List.prefix_append _ _, rfl⟩

theorem OnlyWrites.bind (h : action.OnlyWrites) {next : α → Effect Storage β} (hnext : ∀ x, (next x).OnlyWrites) :
    OnlyWrites (action >>= next) := by
  intro s
  have hfirst := h s
  rw [bind_apply]
  rcases e : action s with ⟨_ | x, s'⟩
  · rw [e] at hfirst
    exact hfirst
  · rw [e] at hfirst
    exact hfirst.trans (hnext x s')

/-- Whether spill directories can be created or not, and whatever is left of them, no file or snapshot is touched. -/
private theorem onlyWrites_use {work : SpillSpace → Effect Storage α} (h : ∀ space, (work space).OnlyWrites) :
    OnlyWrites (SpillSpace.use work) := by
  intro s
  unfold SpillSpace.use
  rcases SpillSpace.create s.host.bases s.host.disk with ⟨fault | space, disk⟩
  · exact ⟨.refl s, rfl⟩
  · have hwork := h space (s.withDisk disk)
    exact ⟨hwork.extends_, hwork.snapshots⟩

theorem OnlyWrites.mapFault (h : action.OnlyWrites) (f : Fault → Fault) : OnlyWrites (action.mapFault f) := by
  intro s
  rw [mapFault_apply]
  exact h s

end Effect

open Effect

/-! ### Workers -/

private theorem onlyWrites_mergeFiles (files : List DataFile) (level : Int) : OnlyWrites (mergeFiles files level) := by
  unfold mergeFiles
  exact (onlyWrites_ofRead _).bind fun rows => onlyWrites_writeFile rows level

private theorem BucketWriter.onlyWrites_compact (w : BucketWriter) (t : Table) (p : Partition) (bucket : Int)
    (full : Bool) : OnlyWrites (w.compact t p bucket full) := by
  intro s
  unfold compact
  split
  · exact .refl s
  · split
    · exact .refl s
    · refine (onlyWrites_ofRead _).bind (fun files => ?_) s
      split
      · exact onlyWrites_pure _
      · exact (onlyWrites_mergeFiles _ _).bind fun merged => onlyWrites_pure _

private theorem TaskWriter.onlyWrites_compact (w : TaskWriter) (task : Task) : OnlyWrites (w.compact task) := by
  intro s
  unfold compact
  split
  · exact .refl s
  · split
    · exact .refl s
    · exact (onlyWrites_mergeFiles _ _).bind (fun merged => onlyWrites_pure _) s

namespace Table

private theorem onlyWrites_compactBuckets (t : Table) (mode : BucketMode) (units : List WorkUnit) :
    ∀ w : BucketWriter, OnlyWrites (compactBuckets t mode units w) := by
  induction units with
  | nil => exact fun w => onlyWrites_pure _
  | cons u rest ih =>
    intro w
    cases u with
    | bucket p bucket => exact (w.onlyWrites_compact t p bucket true).bind ih
    | task version payload => exact onlyWrites_throw _

private theorem onlyWrites_carryOutTasks (mode : BucketMode) (units : List WorkUnit) :
    OnlyWrites (carryOutTasks mode units) := by
  induction units with
  | nil => exact onlyWrites_pure _
  | cons u rest ih =>
    cases u with
    | bucket p bucket => exact onlyWrites_throw _
    | task version payload =>
      refine (onlyWrites_ofRead _).bind fun task => ?_
      refine (TaskWriter.onlyWrites_compact {} task).bind fun fragment => ?_
      exact ih.bind fun fragments => onlyWrites_pure _

private theorem onlyWrites_worker (t : Table) (mode : BucketMode) (units : List WorkUnit) :
    OnlyWrites (t.worker mode units) := by
  unfold worker
  split
  · exact onlyWrites_use fun _ => onlyWrites_compactBuckets t mode units {}
  · exact onlyWrites_carryOutTasks mode units

theorem onlyWrites_compactUnit (t : Table) (full : Bool) (u : WorkUnit) : OnlyWrites (t.compactUnit full u) := by
  cases u with
  | bucket p bucket =>
    exact (BucketWriter.onlyWrites_compact {} t p bucket full).bind fun w => onlyWrites_pure _
  | task version payload =>
    refine (onlyWrites_ofRead _).bind fun task => ?_
    exact (TaskWriter.onlyWrites_compact {} task).bind fun fragment => onlyWrites_pure _

end Table

/-! ### Executors -/

namespace Executor

variable {α β : Type} {worker : Worker Storage α β}

private theorem onlyWrites_runThreads (h : ∀ units, (worker units).OnlyWrites) (slices : List (List α)) :
    ∀ i, OnlyWrites (runThreads worker i slices) := by
  induction slices with
  | nil => exact fun i => onlyWrites_pure []
  | cons slice rest ih =>
    intro i
    refine ((h slice).mapFault _).bind fun results => ?_
    exact (ih (i + 1)).bind fun others => onlyWrites_pure _

private theorem onlyWrites_outcome {result : Effect Storage (List β)} (h : result.OnlyWrites) :
    OnlyWrites (outcome result) := by
  intro s
  have hs := h s
  unfold outcome
  rcases e : result s with ⟨f | results, s'⟩
  · rw [e] at hs
    exact hs
  · rw [e] at hs
    exact hs

private theorem onlyWrites_collect (h : ∀ units, (worker units).OnlyWrites) (slices : List (List α)) :
    OnlyWrites (collect worker slices) := by
  induction slices with
  | nil => exact onlyWrites_pure []
  | cons slice rest ih =>
    refine (onlyWrites_outcome (h slice)).bind fun first => ?_
    exact ih.bind fun others => onlyWrites_pure _

private theorem onlyWrites_runEngine (h : ∀ units, (worker units).OnlyWrites) (e : Engine) (workers : Option Workers)
    (units : List α) : OnlyWrites (runEngine e workers units worker) := by
  unfold runEngine
  split
  · exact onlyWrites_throw _
  · split
    -- nothing is run if the engine has failed before
    case' h_1 => refine (onlyWrites_throw _).bind fun _ => ?_
    all_goals
      refine (onlyWrites_collect h _).bind fun outcomes => ?_
      split
      · exact onlyWrites_pure _
      · exact onlyWrites_throw _

/-- Whichever executor runs the units, and whichever of them fails, only files are written. -/
theorem onlyWrites_run (h : ∀ units, (worker units).OnlyWrites) (executor : Executor) (units : List α)
    (sendable : Except Fault Unit) : OnlyWrites (executor.run units worker sendable) := by
  unfold run
  split
  · split
    · exact onlyWrites_throw _
    · exact onlyWrites_runThreads h _ 0
  · split
    · exact onlyWrites_pure _
    · split
      · exact onlyWrites_throw _
      · exact onlyWrites_runEngine h _ _ _

end Executor

/-! ### Commits -/

/-- Whether at most one snapshot was added, the one of the given number, and no row of a file was changed. -/
structure Storage.Advances (s : Storage) (id : Option Nat) (s' : Storage) : Prop where
  extends_ : s.Extends s'
  snapshots : (id = none ∧ s'.snapshots = s.snapshots) ∨
    ∃ snapshot : Snapshot, id = some snapshot.id ∧ s'.snapshots = s.snapshots ++ [snapshot]

namespace Storage

variable {s s' s'' : Storage} {id : Option Nat}

private theorem Grows.advances (h : s.Grows s') : s.Advances none s' := ⟨h.extends_, Or.inl ⟨rfl, h.snapshots⟩⟩

theorem Grows.trans_advances (h : s.Grows s') (h' : s'.Advances id s'') : s.Advances id s'' := by
  refine ⟨h.extends_.trans h'.extends_, ?_⟩
  rw [← h.snapshots]
  exact h'.snapshots

private theorem advances_withSnapshot (s : Storage) (user kind : String) (m : Manifest) :
    s.Advances (some (s.snapshots.length + 1)) (s.withSnapshot user kind m) :=
  ⟨.refl s, Or.inr ⟨⟨s.snapshots.length + 1, user, kind, m⟩, rfl, rfl⟩⟩

theorem grows_storeGroups (groups : List Table.Group) : ∀ s : Storage, s.Grows (Table.storeGroups groups s).2 := by
  induction groups with
  | nil => exact fun s => .refl s
  | cons g rest ih =>
    intro s
    have hfirst : s.Grows (s.storeFile g.rows 0).2 := onlyWrites_writeFile g.rows 0 s
    exact hfirst.trans (ih _)

end Storage

namespace Table

variable {rows : List Row} {s : Storage}

theorem commitFragments_advances (t : Table) (user : String) (fragments : List Fragment) (s : Storage) :
    (∃ fault, t.commitFragments user fragments s = (.error fault, s)) ∨
    ∃ id s', t.commitFragments user fragments s = (.ok id, s') ∧ s.Advances id s' := by
  rcases t.commitFragments_cases user fragments s with ⟨-, fault, e⟩ | ⟨-, e⟩ | ⟨-, -, e⟩
  · exact Or.inl ⟨fault, e⟩
  · exact Or.inr ⟨none, s, e, (Storage.Grows.refl s).advances⟩
  · exact Or.inr ⟨_, _, e, Storage.advances_withSnapshot s user "COMPACT" _⟩

private theorem overwrite_advances (t : Table) (rows : List Row) (user : String) (s : Storage) :
    (∃ fault s', t.overwrite rows user s = (.error fault, s') ∧ s.Grows s') ∨
    ∃ id s', t.overwrite rows user s = (.ok id, s') ∧ s.Advances id s' := by
  rcases t.overwrite_eq rows user s with
    ⟨fault, -, e⟩ | ⟨-, e⟩ | ⟨groups, before, -, -, e⟩ | ⟨groups, -, -, -, e⟩
  · exact Or.inl ⟨fault, s, e, .refl s⟩
  · exact Or.inr ⟨none, s, e, (Storage.Grows.refl s).advances⟩
  · exact Or.inl ⟨_, _, e, Storage.grows_storeGroups before s⟩
  · have hwritten := Storage.grows_storeGroups groups s
    exact Or.inr ⟨_, _, e, hwritten.trans_advances (Storage.advances_withSnapshot _ _ _ _)⟩

private theorem reorder_advances (t : Table) (strategy : Strategy) (columns : List String) (filter : Option Filter)
    (s : Storage) :
    (∃ fault s', t.reorder strategy columns filter s = (.error fault, s') ∧ s.Grows s') ∨
    ∃ id s', t.reorder strategy columns filter s = (.ok id, s') ∧ s.Advances id s' := by
  rcases t.reorder_cases strategy columns filter s with ⟨fault, e⟩ | ⟨-, rows, -, e⟩
  · exact Or.inl ⟨fault, s, e, .refl s⟩
  · rw [e, writeSorted, Effect.ofExcept_bind]
    cases t.sortRows rows strategy columns with
    | error fault => exact Or.inl ⟨fault, s, rfl, .refl s⟩
    | ok inOrder => exact t.overwrite_advances inOrder "sort-compact" s

/-- Running units writes files only, up to the commit of what they give. -/
private theorem runUnits_cases (t : Table) (executor : Executor) (user : String) (units : List WorkUnit)
    (report : Report) (s : Storage) :
    (∃ fault s', t.runUnits executor user units report s = (.error fault, s') ∧ s.Grows s') ∨
    ∃ report' id s', t.runUnits executor user units report s = (.ok report', s') ∧ report'.snapshot = id.map Int.ofNat ∧
      s.Advances id s' := by
  have hwrites := Executor.onlyWrites_run (t.onlyWrites_worker t.mode) executor units t.sendable s
  rw [runUnits, Effect.bind_apply]
  rcases e : executor.run units (t.worker t.mode) t.sendable s with ⟨fault | fragments, s₁⟩
  · rw [e] at hwrites
    exact Or.inl ⟨fault, s₁, rfl, hwrites⟩
  · rw [e] at hwrites
    dsimp only at hwrites ⊢
    rw [Effect.bind_apply]
    rcases t.commitFragments_advances user fragments s₁ with ⟨fault, e⟩ | ⟨id, s', e, hadv⟩
    · rw [e]
      exact Or.inl ⟨fault, s₁, rfl, hwrites⟩
    · rw [e]
      exact Or.inr ⟨_, id, s', rfl, rfl, hwrites.trans_advances hadv⟩

/-- A compaction that fails, at whatever point, adds no snapshot and changes no row of a file that was there. One that
succeeds adds at most one snapshot, just if it reports one, and reports its number. -/
theorem compact_all_or_nothing (t : Table) (executor : Executor) (user : String) (r : Request) (s : Storage) :
    (∃ fault s', t.compact executor user r s = (.error fault, s') ∧ s.Extends s' ∧ s'.snapshots = s.snapshots) ∨
    ∃ report s', t.compact executor user r s = (.ok report, s') ∧ s.Extends s' ∧
      ((report.snapshot = none ∧ s'.snapshots = s.snapshots) ∨
        ∃ snapshot : Snapshot, report.snapshot = some (snapshot.id : Int) ∧
          s'.snapshots = s.snapshots ++ [snapshot]) := by
  have hreported : ∀ {report : Report} {id : Option Nat} {s' : Storage}, report.snapshot = id.map Int.ofNat →
      s.Advances id s' → (report.snapshot = none ∧ s'.snapshots = s.snapshots) ∨
        ∃ snapshot : Snapshot, report.snapshot = some (snapshot.id : Int) ∧
          s'.snapshots = s.snapshots ++ [snapshot] := by
    intro report id s' hid hadv
    rcases hadv.snapshots with ⟨rfl, hs⟩ | ⟨snapshot, rfl, hs⟩
    · exact Or.inl ⟨hid, hs⟩
    · exact Or.inr ⟨snapshot, hid, hs⟩
  unfold compact
  dsimp only
  split
  · rw [Effect.ofRead_bind]
    cases t.forCompaction.plan s r with
    | error fault => exact Or.inl ⟨fault, s, rfl, .refl s, rfl⟩
    | ok units =>
      dsimp only
      split
      · exact Or.inr ⟨_, s, rfl, .refl s, Or.inl ⟨rfl, rfl⟩⟩
      · rcases runUnits_cases t.forCompaction executor user units _ s with
          ⟨fault, s', e, hgrows⟩ | ⟨report, id, s', e, hid, hadv⟩
        · exact Or.inl ⟨fault, s', e, hgrows.extends_, hgrows.snapshots⟩
        · exact Or.inr ⟨report, s', e, hadv.extends_, hreported hid hadv⟩
  · rw [Effect.bind_apply]
    rcases t.forCompaction.reorder_advances r.strategy r.columns r.filter s with
      ⟨fault, s', e, hgrows⟩ | ⟨id, s', e, hadv⟩
    · rw [e]
      exact Or.inl ⟨fault, s', rfl, hgrows.extends_, hgrows.snapshots⟩
    · rw [e]
      exact Or.inr ⟨_, s', rfl, hadv.extends_, hreported rfl hadv⟩

end Table

end Compaction
