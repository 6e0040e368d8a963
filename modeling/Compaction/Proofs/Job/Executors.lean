import Compaction.Job.Executor
import Compaction.Proofs.Effect
import Compaction.Proofs.Job.Slices

/-!
# Executors agree

A worker that answers for each unit by itself is run on slices, and what comes of the job accords with the answers
(`Accords`): all their results in some order, or a fault that one of them explains. It does so for threads in whatever
order the slices end (`accords_settle`), of which running them one after another is a case (`exists_settle_eq`), and for
an engine however it cuts the units into stretches (`accords_gather_collect`).
-/

namespace Compaction

variable {σ α β : Type} {answer : α → Except Fault (List β)} {worker : Worker σ α β} {units units' : List α}
  {cuts : List (List α)} {xs : List β} {u : α} {f g : Fault} {i : Nat} {s : σ}

/-- Whether a worker handles a slice unit by unit: all their results, or the fault of the first that has one. -/
def Worker.Answers (worker : Worker σ α β) (answer : α → Except Fault (List β)) : Prop :=
  ∀ slice s, (worker slice s).1 = Executor.gather (slice.map answer)

namespace Executor

/-- What may come of a job, given the answers of its units. -/
structure Accords (units : List α) (answer : α → Except Fault (List β)) (result : Except Fault (List β)) : Prop where
  ok : ∀ results : α → List β, (∀ u ∈ units, answer u = .ok (results u)) →
    ∃ xs, result = .ok xs ∧ xs.Perm (units.flatMap results)
  error : ∀ u ∈ units, ∀ f, answer u = .error f → ∃ g, result = .error g ∧
    (g.kind.isLibrary ∧ (∃ u ∈ units, answer u = .error g) ∨
      g.kind = .workerExecution ∧ ∃ u ∈ units, ∃ f, answer u = .error f ∧ ¬ f.kind.isLibrary)

/-- What the threads report in the end, where a slice that was never begun has no outcome. -/
def settle : Nat → List (Option (Except Fault (List β))) → Except Fault (List β)
  | _, [] => .ok []
  | i, none :: rest => settle (i + 1) rest
  | i, some (.error f) :: _ => .error (workerFault i f)
  | i, some (.ok results) :: rest => do return results ++ (← settle (i + 1) rest)

/-- How the slices with these outcomes may have ended. None is left out unless another one has failed. -/
structure Ended (outcomes : List (Except Fault (List β))) (ended : List (Option (Except Fault (List β)))) : Prop where
  each : List.Forall₂ (fun outcome e => e = some outcome ∨ e = none) outcomes ended
  failed : none ∈ ended → ∃ f, some (.error f) ∈ ended

/-! ### Gathering -/

theorem gather_of_ok {results : α → List β} (h : ∀ u ∈ units, answer u = .ok (results u)) :
    gather (units.map answer) = .ok (units.flatMap results) := by
  induction units with
  | nil => rfl
  | cons u rest ih =>
    rw [List.forall_mem_cons] at h
    rw [List.map_cons, gather, h.1, ih h.2]
    rfl

private theorem gather_eq_error (h : gather (units.map answer) = .error f) : ∃ u ∈ units, answer u = .error f := by
  induction units with
  | nil => cases h
  | cons u rest ih =>
    rcases Except.bind_eq_error.1 h with hu | ⟨results, -, hrest⟩
    · exact ⟨u, List.mem_cons_self, hu⟩
    · obtain ⟨u', hmem, hu'⟩ := ih (Except.bind_pure_eq_error.1 hrest)
      exact ⟨u', List.mem_cons_of_mem u hmem, hu'⟩

/-- All units have results if there are results to gather. -/
private theorem exists_ok_of_gather (h : gather (units.map answer) = .ok xs) (hu : u ∈ units) :
    ∃ ys, answer u = .ok ys := by
  induction units generalizing xs with
  | nil => cases hu
  | cons u' rest ih =>
    obtain ⟨results, hfirst, hrest⟩ := Except.bind_eq_ok.1 h
    obtain ⟨others, hrest, -⟩ := Except.bind_eq_ok.1 hrest
    rcases List.mem_cons.1 hu with rfl | hu
    · exact ⟨results, hfirst⟩
    · exact ih hrest hu

private theorem gather_append (xs ys : List (Except Fault (List β))) :
    gather (xs ++ ys) = do return (← gather xs) ++ (← gather ys) := by
  induction xs with
  | nil =>
    rw [List.nil_append, gather]
    cases gather ys <;> rfl
  | cons x rest ih =>
    rw [List.cons_append, gather, gather, ih]
    cases x with
    | error f => rfl
    | ok first => cases gather rest <;> cases gather ys <;> simp [bind, Except.bind, pure, Except.pure]

/-- Gathering slice by slice gathers the same. -/
private theorem gather_flatten (cuts : List (List α)) (answer : α → Except Fault (List β)) :
    gather (cuts.map fun cut => gather (cut.map answer)) = gather (cuts.flatten.map answer) := by
  induction cuts with
  | nil => rfl
  | cons cut rest ih => rw [List.map_cons, gather, ih, List.flatten_cons, List.map_append, gather_append]

/-! ### What accords -/

private theorem accords_of_gather (h : gather (units'.map answer) = .ok xs) (hperm : units'.Perm units) :
    Accords units answer (.ok xs) := by
  refine ⟨fun results hresults => ⟨xs, rfl, ?_⟩, fun u hu f hf => ?_⟩
  · rw [gather_of_ok fun u hu => hresults u (hperm.subset hu)] at h
    exact Except.ok.inj h ▸ hperm.flatMap_right results
  · obtain ⟨ys, hys⟩ := exists_ok_of_gather h (hperm.symm.subset hu)
    rw [hys] at hf
    cases hf

private theorem accords_of_isLibrary (hu : u ∈ units) (h : answer u = .error f) (hf : f.kind.isLibrary) :
    Accords units answer (.error f) := by
  refine ⟨fun results hresults => ?_, fun _ _ _ _ => ⟨f, rfl, .inl ⟨hf, u, hu, h⟩⟩⟩
  rw [hresults u hu] at h
  cases h

private theorem accords_of_not_isLibrary (hu : u ∈ units) (h : answer u = .error f) (hf : ¬ f.kind.isLibrary)
    (hg : g.kind = .workerExecution) : Accords units answer (.error g) := by
  refine ⟨fun results hresults => ?_, fun _ _ _ _ => ⟨g, rfl, .inr ⟨hg, u, hu, f, h, hf⟩⟩⟩
  rw [hresults u hu] at h
  cases h

/-! ### Threads -/

/-- The threads report the results of all slices or the fault of one. -/
private theorem settle_cases {outcomes : List (Except Fault (List β))} {ended : List (Option (Except Fault (List β)))}
    (h : List.Forall₂ (fun outcome e => e = some outcome ∨ e = none) outcomes ended) (i : Nat) :
    (∃ f j, .error f ∈ outcomes ∧ settle i ended = .error (workerFault j f)) ∨
      (∀ f, some (.error f) ∉ ended) ∧
        (none ∉ ended → ∃ xs, settle i ended = .ok xs ∧ gather outcomes = .ok xs) := by
  induction h generalizing i with
  | nil => exact .inr ⟨by simp, fun _ => ⟨[], rfl, rfl⟩⟩
  | @cons outcome e outcomes ended hfirst _ ih =>
    rcases hfirst with rfl | rfl
    · cases outcome with
      | error f => exact .inl ⟨f, i, List.mem_cons_self, rfl⟩
      | ok results =>
        rcases ih (i + 1) with ⟨f, j, hmem, hsettle⟩ | ⟨hnone, hsettle⟩
        · refine .inl ⟨f, j, List.mem_cons_of_mem _ hmem, ?_⟩
          rw [settle, hsettle]
          rfl
        · refine .inr ⟨by simpa using hnone, fun hall => ?_⟩
          obtain ⟨xs, hsettle, hgather⟩ := hsettle fun hmem => hall (List.mem_cons_of_mem _ hmem)
          exact ⟨results ++ xs, by rw [settle, hsettle]; rfl, by rw [gather, hgather]; rfl⟩
    · rcases ih (i + 1) with ⟨f, j, hmem, hsettle⟩ | ⟨hnone, -⟩
      · exact .inl ⟨f, j, List.mem_cons_of_mem _ hmem, hsettle⟩
      · exact .inr ⟨by simpa using hnone, fun hall => absurd List.mem_cons_self hall⟩

theorem accords_settle {ended : List (Option (Except Fault (List β)))} (hcuts : cuts.flatten.Perm units)
    (h : Ended (cuts.map fun cut => gather (cut.map answer)) ended) (i : Nat) :
    Accords units answer (settle i ended) := by
  rcases settle_cases h.each i with ⟨f, j, hmem, hsettle⟩ | ⟨hok, hsettle⟩
  · obtain ⟨cut, hcut, hf⟩ := List.mem_map.1 hmem
    obtain ⟨u, hu, hf⟩ := gather_eq_error hf
    have hu := hcuts.subset (List.mem_flatten.2 ⟨cut, hcut, hu⟩)
    rw [hsettle, workerFault]
    split
    · next hlibrary => exact accords_of_isLibrary hu hf hlibrary
    · next hforeign => exact accords_of_not_isLibrary hu hf hforeign rfl
  · have hall : none ∉ ended := fun hnone => (h.failed hnone).elim hok
    obtain ⟨xs, hsettle, hgather⟩ := hsettle hall
    rw [gather_flatten] at hgather
    exact hsettle ▸ accords_of_gather hgather hcuts

/-- Running the slices one after another is one way for them to end. -/
theorem exists_settle_eq (h : worker.Answers answer) (cuts : List (List α)) (i : Nat) (s : σ) :
    ∃ ended, Ended (cuts.map fun cut => gather (cut.map answer)) ended ∧
      (runThreads worker i cuts s).1 = settle i ended := by
  induction cuts generalizing i s with
  | nil => exact ⟨[], ⟨.nil, by simp⟩, rfl⟩
  | cons cut rest ih =>
    have hcut := h cut s
    rw [List.map_cons, runThreads, Effect.bind_apply, Effect.mapFault_apply, hcut]
    cases gather (cut.map answer) with
    | error f =>
      -- the slices after one that fails are not begun
      refine ⟨some (.error f) :: rest.map fun _ => none, ⟨.cons (.inl rfl) ?_, fun _ => ⟨f, List.mem_cons_self⟩⟩, rfl⟩
      rw [List.forall₂_map_left_iff, List.forall₂_map_right_iff, List.forall₂_same]
      exact fun _ _ => .inr rfl
    | ok results =>
      obtain ⟨ended, hended, hrest⟩ := ih (i + 1) (worker cut s).2
      refine ⟨some (.ok results) :: ended, ⟨.cons (.inl rfl) hended.each, fun hnone => ?_⟩, ?_⟩
      · obtain ⟨f, hf⟩ := hended.failed ((List.mem_cons.1 hnone).resolve_left nofun)
        exact ⟨f, List.mem_cons_of_mem _ hf⟩
      · rw [settle, ← hrest]
        show ((_ >>= _ : Effect σ (List β)) (worker cut s).2).1 = _
        rw [Effect.bind_apply]
        rcases runThreads worker (i + 1) rest (worker cut s).2 with ⟨_ | xs, s'⟩ <;> rfl

private theorem accords_runThreads (h : worker.Answers answer) (hcuts : cuts.flatten.Perm units) (i : Nat) (s : σ) :
    Accords units answer (runThreads worker i cuts s).1 := by
  obtain ⟨ended, hended, e⟩ := exists_settle_eq h cuts i s
  exact e ▸ accords_settle hcuts hended i

/-! ### Engines -/

private theorem outcome_cases (h : worker.Answers answer) (cut : List α) (s : σ) : ∃ s',
    (∃ f, gather (cut.map answer) = .error f ∧ ¬ f.kind.isLibrary ∧
      outcome (worker cut) s = (.error (.stageFailed f), s')) ∨
    outcome (worker cut) s = (.ok (gather (cut.map answer)), s') ∧
      ∀ f, gather (cut.map answer) = .error f → f.kind.isLibrary := by
  rw [← h cut s, outcome]
  rcases worker cut s with ⟨f | results, s'⟩
  · by_cases hf : f.kind.isLibrary
    · refine ⟨s', .inr ⟨by simp only [hf]; rfl, ?_⟩⟩
      rintro g ⟨⟩
      exact hf
    · exact ⟨s', .inl ⟨f, rfl, hf, by simp only [hf]; rfl⟩⟩
  · exact ⟨s', .inr ⟨rfl, nofun⟩⟩

private theorem collect_cases (h : worker.Answers answer) (cuts : List (List α)) (s : σ) :
    (∃ cut ∈ cuts, ∃ f, gather (cut.map answer) = .error f ∧ ¬ f.kind.isLibrary ∧
      (collect worker cuts s).1 = .error (.stageFailed f)) ∨
    (collect worker cuts s).1 = .ok (cuts.map fun cut => gather (cut.map answer)) ∧
      ∀ cut ∈ cuts, ∀ f, gather (cut.map answer) = .error f → f.kind.isLibrary := by
  -- by induction on the slices: a fault of the library is collected, any other ends the stage
  induction cuts generalizing s with
  | nil => exact .inr ⟨rfl, by simp⟩
  | cons cut rest ih =>
    rw [List.map_cons, List.forall_mem_cons, collect]
    obtain ⟨s', ⟨f, hf, hforeign, e⟩ | ⟨e, hlibrary⟩⟩ := outcome_cases h cut s
    · rw [Effect.bind_of_error e]
      exact .inl ⟨cut, List.mem_cons_self, f, hf, hforeign, rfl⟩
    · rw [Effect.bind_of_ok e, Effect.bind_apply]
      rcases ih s' with ⟨cut', hcut', f, hf, hforeign, hrest⟩ | ⟨hrest, hall⟩
      · refine .inl ⟨cut', List.mem_cons_of_mem _ hcut', f, hf, hforeign, ?_⟩
        rcases e : collect worker rest s' with ⟨_ | _, s''⟩ <;> rw [e] at hrest <;> cases hrest
        rfl
      · refine .inr ⟨?_, hlibrary, hall⟩
        rcases e : collect worker rest s' with ⟨_ | _, s''⟩ <;> rw [e] at hrest <;> cases hrest
        rfl

theorem accords_gather_collect (h : worker.Answers answer) (hcuts : cuts.flatten = units) (s : σ) :
    Accords units answer ((collect worker cuts s).1 >>= gather) := by
  subst hcuts
  rcases collect_cases h cuts s with ⟨cut, hcut, f, hf, hforeign, hcollect⟩ | ⟨hcollect, hlibrary⟩
  · obtain ⟨u, hu, hf⟩ := gather_eq_error hf
    rw [hcollect]
    exact accords_of_not_isLibrary (List.mem_flatten.2 ⟨cut, hcut, hu⟩) hf hforeign rfl
  · rw [hcollect]
    show Accords _ _ (gather (cuts.map fun cut => gather (cut.map answer)))
    cases hgather : gather (cuts.map fun cut => gather (cut.map answer)) with
    | error f =>
      obtain ⟨cut, hcut, hf⟩ := gather_eq_error hgather
      obtain ⟨u, hu, hu'⟩ := gather_eq_error hf
      exact accords_of_isLibrary (List.mem_flatten.2 ⟨cut, hcut, hu⟩) hu' (hlibrary cut hcut f hf)
    | ok xs =>
      rw [gather_flatten] at hgather
      exact accords_of_gather hgather (.refl _)

private theorem engineSlices?_whole {q : Int} (hq : 1 ≤ q) (e : Engine) (units : List α) :
    engineSlices? e (some (.whole q)) units = some (stretches units (min (units.length : Int) q).toNat) := by
  have hzero : q ≠ 0 := by omega
  unfold engineSlices?
  split
  · next h => cases h
  · next h => exact absurd (Workers.whole.inj (Option.some.inj h)) hzero
  · next h => exact Option.some.inj h ▸ rfl

private theorem runEngine_eq {e : Engine} {q : Int} (he : e.failure = none) (hq : 1 ≤ q) (hunits : units ≠ [])
    (worker : Worker σ α β) (s : σ) :
    ∃ cuts, cuts.flatten = units ∧
      (runEngine e (some (.whole q)) units worker s).1 = ((collect worker cuts s).1 >>= gather) := by
  have hlength := List.length_pos_of_ne_nil hunits
  refine ⟨_, flatten_stretches (n := (min (units.length : Int) q).toNat) (by omega) units, ?_⟩
  simp only [runEngine, engineSlices?_whole hq, he]
  rw [Effect.bind_apply]
  rcases collect worker _ s with ⟨f | outcomes, s'⟩
  · rfl
  · show _ = gather outcomes
    cases h : gather outcomes <;> simp only [h] <;> rfl

/-- Whatever the units answer, threads and an engine bring the same about, up to the order of the results and to which
of several faults is reported: threads however their slices end, an engine however it cuts the units. -/
theorem executors_agree {p q : Int} {e : Engine} (hworker : worker.Answers answer) (hq : 1 ≤ q) (he : e.failure = none)
    (units : List α) (s : σ) :
    Accords units answer ((threads (.whole p)).run units worker (.ok ()) s).1 ∧
      Accords units answer ((engine e (some (.whole q))).run units worker (.ok ()) s).1 ∧
      (∀ ended, Ended ((slices units p).map fun slice => gather (slice.map answer)) ended →
        Accords units answer (settle 0 ended)) ∧
      ∀ cuts : List (List α), cuts.flatten = units → Accords units answer ((collect worker cuts s).1 >>= gather) := by
  refine ⟨?_, ?_, fun ended hended => accords_settle (flatten_slices_perm units p) hended 0,
    fun cuts hcuts => accords_gather_collect hworker hcuts s⟩
  · exact accords_runThreads hworker (flatten_slices_perm units (min p units.length)) 0 s
  · by_cases hunits : units = []
    · subst hunits
      exact accords_of_gather rfl (.refl [])
    · have hrun : ((engine e (some (.whole q))).run units worker (.ok ()) s).1 =
          (runEngine e (some (.whole q)) units worker s).1 := by
        rw [run, List.isEmpty_eq_false_iff.2 hunits]
        rfl
      obtain ⟨cuts, hcuts, e'⟩ := runEngine_eq he hq hunits worker s
      rw [hrun, e']
      exact accords_gather_collect hworker hcuts s

/-- Three is turned down, four cannot be handled, and any other number yields itself and its double. -/
def doubles (n : Nat) : Except Fault (List Nat) :=
  if n = 3 then .error (.reported .invalidArgument "three")
  else if n = 4 then .error (.bare .badValue)
  else .ok [n, 2 * n]

/-- Counts its units beside. -/
def doubler : Worker Nat Nat Nat := fun slice count => (gather (slice.map doubles), count + slice.length)

/-- Two threads come across the three first, an engine with two partitions is ended by the four. -/
theorem executors_agree_doubler :
    let far : Engine := { defaultWorkers := 8 }
    let report := ((threads (.whole 2)).run [1, 2, 3, 4, 5] doubler (.ok ()) 0).1
    let report' := ((engine far (some (.whole 2))).run [1, 2, 4, 5, 3] doubler (.ok ()) 0).1
    doubler.Answers doubles ∧ 1 ≤ (2 : Int) ∧ far.failure = none ∧ Accords [1, 2, 3, 4, 5] doubles report ∧
      report = .error (.reported .invalidArgument "three") ∧ Accords [1, 2, 4, 5, 3] doubles report' ∧
      report' = .error (.stageFailed (.bare .badValue)) := by
  have hanswers : doubler.Answers doubles := fun _ _ => rfl
  have hagree (units : List Nat) := executors_agree (p := 2) (e := { defaultWorkers := 8 }) hanswers
    (by decide : (1 : Int) ≤ 2) rfl units 0
  exact ⟨hanswers, by decide, rfl, (hagree _).1, rfl, (hagree _).2.1, rfl⟩

end Executor

end Compaction
