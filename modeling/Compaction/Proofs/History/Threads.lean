import Compaction.Proofs.History.Spread
import Compaction.Proofs.Job.Executors

/-!
# Units on threads

The slices of a job are run on threads that share the storage, and at every turn one of them runs its next unit. The
files that it reads never change, and new ones are named one at a time, so all that is left open is the order of the
turns, which may be any; spill directories are left out, as no unit looks at them (`Table.blind_compactUnit`). Whatever
the order is, only files are written by the threads (`Threads.grows_run`), so a job adds at most the snapshot that it
reports (`Threads.finish_advances`). The units of a plan are all run without a fault, and what comes of them is what
comes of running them one after another (`World.threads_agree`).
-/

namespace Compaction

/-- A thread: the units of its slice that were run, those that are left, and what came of the first ones. -/
structure Thread where
  done : List WorkUnit := []
  left : List WorkUnit
  result : Except Fault (List Fragment) := .ok []

namespace Thread

/-- Runs the next unit, unless there is none or one has failed. -/
def step (t : Table) (thread : Thread) (s : Storage) : Thread × Storage :=
  match thread.left, thread.result with
  | u :: rest, .ok fragments =>
    match t.compactUnit true u s with
    | (.ok more, s') => (⟨thread.done ++ [u], rest, .ok (fragments ++ more)⟩, s')
    | (.error fault, s') => ({ thread with result := .error fault }, s')
  | _, _ => (thread, s)

/-- The fragments that were made so far. -/
def fragments (thread : Thread) : List Fragment := thread.result.toOption.getD []

end Thread

/-- Threads that share a storage. -/
structure Threads where
  threads : List Thread
  storage : Storage

namespace Threads

def start (slices : List (List WorkUnit)) (s : Storage) : Threads := ⟨slices.map fun slice => { left := slice }, s⟩

/-- The turn of the `i`-th thread. -/
def turn (t : Table) (x : Threads) (i : Nat) : Threads :=
  match x.threads[i]? with
  | none => x
  | some thread => ⟨x.threads.set i (thread.step t x.storage).1, (thread.step t x.storage).2⟩

def run (t : Table) (x : Threads) (order : List Nat) : Threads := order.foldl (turn t) x

/-- The end of a job, given how its threads have ended. One that was never begun has no outcome. -/
def finish (t : Table) (user : String) (units : List WorkUnit) (report : Report)
    (ended : List (Option (Except Fault (List Fragment)))) (x : Threads) : Except Fault Report × Storage :=
  match Executor.settle 0 ended with
  | .ok fragments => t.finish user units report fragments x.storage
  | .error fault => (.error fault, x.storage)

end Threads

variable {t : Table} {s s' : Storage} {thread : Thread} {x : Threads} {units : List WorkUnit} {u : WorkUnit}
variable {cuts : List (List WorkUnit)} {fs gs : List Fragment} {i : Nat}

/-! ### Turns -/

/-- A thread does nothing, or its next unit fails or makes fragments. -/
private theorem Thread.step_cases (t : Table) (thread : Thread) (s : Storage) :
    thread.step t s = (thread, s) ∨ ∃ u rest, thread.left = u :: rest ∧
      ((∃ fault s', t.compactUnit true u s = (.error fault, s') ∧
        thread.step t s = ({ thread with result := .error fault }, s')) ∨
      ∃ fs gs s', thread.result = .ok fs ∧ t.compactUnit true u s = (.ok gs, s') ∧
        thread.step t s = (⟨thread.done ++ [u], rest, .ok (fs ++ gs)⟩, s')) := by
  obtain ⟨done, left, result⟩ := thread
  cases left with
  | nil => exact .inl rfl
  | cons u rest =>
    cases result with
    | error fault => exact .inl rfl
    | ok fs =>
      refine .inr ⟨u, rest, rfl, ?_⟩
      simp only [step]
      rcases t.compactUnit true u s with ⟨fault | gs, s'⟩
      · exact .inl ⟨fault, s', rfl, rfl⟩
      · exact .inr ⟨fs, gs, s', rfl, rfl, rfl⟩

namespace Threads

private theorem turn_cases (t : Table) (x : Threads) (i : Nat) : x.turn t i = x ∨
    ∃ before thread after, x.threads = before ++ thread :: after ∧
      x.turn t i = ⟨before ++ (thread.step t x.storage).1 :: after, (thread.step t x.storage).2⟩ := by
  unfold turn
  cases hi : x.threads[i]? with
  | none => exact .inl rfl
  | some thread =>
    obtain ⟨hlt, rfl⟩ := List.getElem?_eq_some_iff.1 hi
    refine .inr ⟨x.threads.take i, x.threads[i], x.threads.drop (i + 1), ?_, ?_⟩
    · rw [List.getElem_cons_drop, List.take_append_drop]
    · dsimp only
      rw [List.set_eq_take_cons_drop _ hlt]

private theorem run_induction {P : Threads → Prop} (hturn : ∀ x i, P x → P (x.turn t i)) (h : P x) (order : List Nat) :
    P (x.run t order) := by
  induction order generalizing x with
  | nil => exact h
  | cons i rest ih => exact ih (hturn x i h)

/-- No unit is lost. -/
private theorem slices_run (t : Table) (cuts : List (List WorkUnit)) (s : Storage) (order : List Nat) :
    ((start cuts s).run t order).threads.map (fun thread => thread.done ++ thread.left) = cuts := by
  have hstep : ∀ (thread : Thread) (s : Storage),
      (thread.step t s).1.done ++ (thread.step t s).1.left = thread.done ++ thread.left := by
    intro thread s
    rcases thread.step_cases t s with e | ⟨u, rest, hleft, ⟨fault, s', -, e⟩ | ⟨fs, gs, s', -, -, e⟩⟩
    · rw [e]
    · rw [e]
    · rw [e, hleft, List.append_assoc, List.singleton_append]
  refine run_induction (P := fun x => x.threads.map (fun thread => thread.done ++ thread.left) = cuts)
    (fun x i h => ?_) ?_ order
  · rcases x.turn_cases t i with e | ⟨before, thread, after, hx, e⟩
    · rwa [e]
    · rw [e, ← h, hx, List.map_append, List.map_append, List.map_cons, List.map_cons, hstep]
  · rw [start, List.map_map]
    exact List.map_id _

/-! ### Files only -/

/-- Whichever unit is run next, and whether it fails or not, only files are written. -/
theorem grows_run (t : Table) (x : Threads) (order : List Nat) : x.storage.Grows (x.run t order).storage := by
  have hstep : ∀ (thread : Thread) (s : Storage), s.Grows (thread.step t s).2 := by
    intro thread s
    rcases thread.step_cases t s with e | ⟨u, rest, -, hnext⟩
    · rw [e]
      exact .refl s
    · have hgrows : s.Grows (t.compactUnit true u s).2 := t.onlyWrites_compactUnit true u s
      rcases hnext with ⟨fault, s', hu, e⟩ | ⟨fs, gs, s', -, hu, e⟩
      · rw [hu] at hgrows
        rwa [e]
      · rw [hu] at hgrows
        rwa [e]
  refine run_induction (P := fun x' => x.storage.Grows x'.storage) (fun x' i h => ?_) (.refl _) order
  rcases x'.turn_cases t i with e | ⟨before, thread, after, -, e⟩
  · rwa [e]
  · rw [e]
    exact h.trans (hstep thread x'.storage)

/-- A job whose threads take turns in any order, and end or are never begun, fails and commits nothing, or it adds at
most the one snapshot that it reports. -/
theorem finish_advances (t : Table) (cuts : List (List WorkUnit)) (s : Storage) (order : List Nat) (user : String)
    (units : List WorkUnit) (report : Report) (ended : List (Option (Except Fault (List Fragment)))) :
    (∃ fault s', finish t user units report ended ((start cuts s).run t order) = (.error fault, s') ∧ s.Grows s') ∨
    ∃ report' id s', finish t user units report ended ((start cuts s).run t order) = (.ok report', s') ∧
      report'.snapshot = id.map Int.ofNat ∧ s.Advances id s' := by
  have hgrows : s.Grows ((start cuts s).run t order).storage := grows_run t (start cuts s) order
  generalize ((start cuts s).run t order) = x at hgrows
  unfold finish
  cases Executor.settle 0 ended with
  | error fault => exact .inl ⟨fault, _, rfl, hgrows⟩
  | ok fragments =>
    rcases t.commitFragments_advances user fragments x.storage with ⟨fault, e⟩ | ⟨id, s', e, hadvances⟩
    · exact .inl ⟨fault, x.storage, Effect.bind_of_error e, hgrows⟩
    · exact .inr ⟨_, id, s', Effect.bind_of_ok e, rfl, hgrows.trans_advances hadvances⟩

end Threads

/-! ### Units that are ready -/

theorem Storage.Completes.perm (h : s.Completes s' fs) (hperm : fs.Perm gs) : s.Completes s' gs := by
  have hfiles : (fs.flatMap Fragment.after).Perm (gs.flatMap Fragment.after) := hperm.flatMap_right _
  refine ⟨⟨h.writes.extends_, h.writes.snapshots, h.writes.host, h.writes.numbered, fun x hx => ?_, fun x hx => ?_,
    hfiles.nodup_iff.1 h.writes.nodup⟩, fun f hf => h.merges f (hperm.mem_iff.2 hf)⟩
  · exact h.writes.stored x (hfiles.mem_iff.2 hx)
  · exact h.writes.fresh x (hfiles.mem_iff.2 hx)

/-- The next unit of a thread, if it is ready, is run without a fault. -/
private theorem Thread.step_of_ready {rest : List WorkUnit} (hs : s.Sound t) (hw : ¬ t.isWriteOnly)
    (hresult : thread.result = .ok thread.fragments) (hleft : thread.left = u :: rest) (hplain : u.IsPlain)
    (hready : u.Ready s) : ∃ gs s', s.Completes s' gs ∧ gs.map (Fragment.outline s') = u.outlines s ∧
      thread.step t s = (⟨thread.done ++ [u], rest, .ok (thread.fragments ++ gs)⟩, s') := by
  obtain ⟨gs, s', hmade, hc, houtlines⟩ := exists_completes hs hw hplain hready
  refine ⟨gs, s', hc, houtlines, ?_⟩
  rw [step, hleft, hresult]
  dsimp only
  rw [hmade]

/-- Whether no thread has failed, and each has made what its units come to, while the storage completes what all of
them have made. -/
structure Threads.Underway (s : Storage) (x : Threads) : Prop where
  each : ∀ thread ∈ x.threads, thread.result = .ok thread.fragments ∧
    thread.fragments.map (Fragment.outline x.storage) = thread.done.flatMap (WorkUnit.outlines s) ∧
    ∀ u ∈ thread.left, u.IsPlain ∧ u.Ready s
  completes : s.Completes x.storage (x.threads.flatMap Thread.fragments)

namespace Threads.Underway

theorem start (hs : s.Numbered) (h : ∀ u ∈ cuts.flatten, u.IsPlain ∧ u.Ready s) :
    (Threads.start cuts s).Underway s := by
  constructor
  · intro thread hthread
    obtain ⟨slice, hslice, rfl⟩ := List.mem_map.1 hthread
    exact ⟨rfl, rfl, fun u hu => h u (List.mem_flatten.2 ⟨slice, hslice, hu⟩)⟩
  · have hnone : (Threads.start cuts s).threads.flatMap Thread.fragments = [] := by
      rw [List.flatMap_eq_nil_iff]
      intro thread hthread
      obtain ⟨slice, -, rfl⟩ := List.mem_map.1 hthread
      rfl
    rw [hnone]
    exact .nil hs

/-- What was made before looks the same beside new files. -/
private theorem each_of_completes (h : x.Underway s) (hc : x.storage.Completes s' gs) :
    ∀ thread ∈ x.threads, thread.result = .ok thread.fragments ∧
      thread.fragments.map (Fragment.outline s') = thread.done.flatMap (WorkUnit.outlines s) ∧
      ∀ u ∈ thread.left, u.IsPlain ∧ u.Ready s := by
  intro thread hthread
  have hsame : thread.fragments.map (Fragment.outline s') = thread.fragments.map (Fragment.outline x.storage) := by
    apply List.map_congr_left
    intro f hf
    have hmerges := h.completes.merges f (List.mem_flatMap.2 ⟨thread, hthread, hf⟩)
    exact Fragment.outline_of_extends hc.writes.extends_ hmerges.after
  rw [hsame]
  exact h.each thread hthread

theorem turn (hs : s.Sound t) (hw : ¬ t.isWriteOnly) (h : x.Underway s) (i : Nat) : (x.turn t i).Underway s := by
  rcases x.turn_cases t i with e | ⟨before, thread, after, hx, e⟩
  · rwa [e]
  · obtain ⟨hresult, -, hleft⟩ := h.each thread (hx ▸ List.mem_append_right _ (List.mem_cons_self ..))
    cases hnext : thread.left with
    | nil =>
      have hidle : thread.step t x.storage = (thread, x.storage) := by rw [Thread.step, hnext]
      rw [e, hidle, ← hx]
      exact h
    | cons u rest =>
      rw [hnext, List.forall_mem_cons] at hleft
      obtain ⟨⟨hplain, hready⟩, hrest⟩ := hleft
      obtain ⟨gs, s', hc, hgs, hstep⟩ := Thread.step_of_ready (hs.writes h.completes.writes) hw hresult hnext hplain
        (hready.of_writes h.completes.writes)
      rw [WorkUnit.outlines_of_writes hs hready h.completes.writes] at hgs
      rw [e, hstep]
      have hkept := h.each_of_completes hc
      rw [hx, List.forall_mem_append, List.forall_mem_cons] at hkept
      obtain ⟨hbefore, ⟨-, hmine, -⟩, hafter⟩ := hkept
      constructor
      · rw [List.forall_mem_append, List.forall_mem_cons]
        refine ⟨hbefore, ⟨rfl, ?_, hrest⟩, hafter⟩
        show (thread.fragments ++ gs).map (Fragment.outline s') = (thread.done ++ [u]).flatMap (WorkUnit.outlines s)
        rw [List.map_append, hmine, hgs, List.flatMap_append, List.flatMap_singleton]
      · refine (h.completes.append hc).perm ?_
        rw [hx, List.flatMap_append, List.flatMap_append, List.flatMap_cons, List.flatMap_cons, List.append_assoc,
          List.append_assoc]
        show (_ ++ (thread.fragments ++ (_ ++ gs))).Perm (_ ++ (thread.fragments ++ gs ++ _))
        rw [List.append_assoc]
        exact (List.perm_append_comm.append_left thread.fragments).append_left _

theorem run (hs : s.Sound t) (hw : ¬ t.isWriteOnly) (h : x.Underway s) (order : List Nat) :
    (x.run t order).Underway s :=
  run_induction (fun _ i h => h.turn hs hw i) h order

/-- When all units were run, their fragments are gathered. -/
private theorem gather_eq_ok (h : x.Underway s) :
    Executor.gather (x.threads.map Thread.result) = .ok (x.threads.flatMap Thread.fragments) := by
  have hresults : x.threads.map Thread.result = x.threads.map fun thread => .ok thread.fragments :=
    List.map_congr_left fun thread hthread => (h.each thread hthread).1
  rw [hresults]
  exact Executor.gather_of_ok fun thread _ => rfl

private theorem outlines_eq (h : x.Underway s) : (x.threads.flatMap Thread.fragments).map (Fragment.outline x.storage) =
    (x.threads.flatMap Thread.done).flatMap (WorkUnit.outlines s) := by
  rw [List.map_flatMap, List.flatMap_assoc]
  exact List.flatMap_congr fun thread hthread => (h.each thread hthread).2.1

end Threads.Underway

/-- Ready units of which none is left are done without a fault, in whatever order the threads took turns. What they have
made has the outlines of all units in some order. -/
private theorem Threads.exists_gather (hs : s.Sound t) (hw : ¬ t.isWriteOnly)
    (hunits : ∀ u ∈ units, u.IsPlain ∧ u.Ready s) (hcuts : cuts.flatten.Perm units) {order : List Nat}
    (hdone : ∀ thread ∈ ((start cuts s).run t order).threads, thread.left = []) :
    ∃ fragments, Executor.gather (((start cuts s).run t order).threads.map Thread.result) = .ok fragments ∧
      s.Completes ((start cuts s).run t order).storage fragments ∧ (∀ f ∈ fragments, f.Replaces) ∧
      (fragments.map (Fragment.outline ((start cuts s).run t order).storage)).Perm
        (units.flatMap (WorkUnit.outlines s)) := by
  have hunits' : ∀ u ∈ cuts.flatten, u.IsPlain ∧ u.Ready s := fun u hu => hunits u (hcuts.subset hu)
  have hunderway := (Underway.start hs.numbered hunits').run hs hw order
  have hcuts' := slices_run t cuts s order
  generalize (start cuts s).run t order = x at hunderway hcuts' hdone ⊢
  have hflatten : x.threads.flatMap Thread.done = cuts.flatten := by
    rw [← hcuts', ← List.flatMap_def]
    refine List.flatMap_congr fun thread hthread => ?_
    rw [hdone thread hthread, List.append_nil]
  have houtlines := hunderway.outlines_eq
  rw [hflatten] at houtlines
  refine ⟨_, hunderway.gather_eq_ok, hunderway.completes, ?_, ?_⟩
  · exact replaces_of_outlines (fun u hu => (hunits' u hu).2) hunderway.completes houtlines
  · rw [houtlines]
    exact hcuts.flatMap_right _

/-- However a plan is cut into slices and whatever turns their threads take until no unit is left: no unit fails, and
committing what they have made comes to the same as a compaction that runs the units one after another. -/
theorem World.threads_agree {w : World} (h : w.Reached t) {r : Request} (hr : r.strategy = .none)
    (options : List (String × String)) (hplan : (t.handle options).plan w.storage r = .ok units) (hsome : units ≠ [])
    (hcuts : cuts.flatten.Perm units) (order : List Nat) (workers : Int) (user user' : String) :
    let t' := (t.handle options).forCompaction
    let x := (Threads.start cuts w.storage).run t' order
    (∀ thread ∈ x.threads, thread.left = []) →
      ∃ fragments, Executor.gather (x.threads.map Thread.result) = .ok fragments ∧
        Agree w.storage (t'.finish user units ((t.handle options).started r) fragments x.storage)
          ((t.handle options).compact (.threads (.whole workers)) user' r w.storage) := by
  intro t' x hdone
  have hs : w.storage.Sound t' := (h.sound.storage.handle options).handle _
  have hw : ¬ t'.isWriteOnly := Table.not_isWriteOnly_forCompaction _
  have hplain : ∀ u ∈ units, u.IsPlain ∧ u.Fits t'.mode :=
    Table.isPlain_of_plan (((t.handle options).plan_forCompaction w.storage r).trans hplan) hs.manifest.nodup
  have hready := ready_of_plan (h.sound.storage.handle options) hr hplan
  obtain ⟨fs, hgather, hc, hfs, houtlines⟩ :=
    Threads.exists_gather hs hw (fun u hu => ⟨(hplain u hu).1, hready u hu⟩) hcuts hdone
  obtain ⟨gs, s', hrun, hc', hgs, houtlines'⟩ :=
    exists_runThreads hs hw hplain hready (flatten_slices_perm units (min workers units.length))
  refine ⟨fs, hgather, ?_⟩
  rcases Table.compact_of_plan hr hplan (.threads (.whole workers)) user' with ⟨hnone, -⟩ | ⟨-, e⟩
  · exact absurd hnone hsome
  · have hrun' : (Executor.threads (.whole workers)).run units (t'.worker t'.mode) t'.sendable w.storage =
        (.ok gs, s') := hrun
    rw [e, Table.runUnits_eq_finish, Effect.bind_of_ok hrun']
    exact finish_agrees hs h.proper hc hc' hfs hgs (houtlines.trans houtlines'.symm) _

/-- Three buckets on two threads, of which the second merges its bucket between those of the first. -/
example :
    let t : Table := ⟨"t", ["dt"], .dynamic, 1, [], []⟩
    let append (n : Int) : Event := .append [] [[("dt", .int 1), ("v", .int n)], [("dt", .int 2), ("v", .int n)],
      [("dt", .int 3), ("v", .int n)]] none "u"
    let w := World.run t [append 1, append 2]
    (t.plan w.storage {}).toOption.map (fun units =>
      ((Threads.start (slices units 2) w.storage).run t.forCompaction [0, 1, 0]).threads.map fun thread =>
        (thread.left.length, (thread.fragments.flatMap Fragment.after).map DataFile.name)) =
      some [(0, [.text "data-000006.json", .text "data-000008.json"]), (0, [.text "data-000007.json"])] := by
  decide +kernel

end Compaction
