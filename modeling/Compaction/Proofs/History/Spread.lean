import Compaction.Proofs.History.Proper
import Compaction.Proofs.Job.Outlines

/-!
# How the work is spread

A job comes to the same however its units are dealt out (`compact_agrees`): it fails and commits nothing, or it
succeeds with the same report and the same buckets, in which only the names of merged files and their order differ.
The fragments of two runs have the same outlines, and neither what is committed of them nor what is counted depends on
more than that (`finish_agrees`). That goes for threads that take turns as well (`World.threads_agree`).
-/

namespace Compaction

/-- The report of a job, with the counts of what was committed. -/
def Report.counted (report : Report) (user : String) (units : List WorkUnit) (changes : List Fragment)
    (snapshot : Option Nat) : Report :=
  { report with
    status := if snapshot.isSome then .completed else .skipped
    units := units.length
    fragments := if snapshot.isSome then changes.length else 0
    before := Table.countFiles Fragment.before changes
    after := Table.countFiles Fragment.after changes
    snapshot := snapshot.map Int.ofNat
    user := some user }

namespace Table

/-- What is done at the end of a job: its fragments are committed and counted. -/
def finish (t : Table) (user : String) (units : List WorkUnit) (report : Report) (fragments : List Fragment) :
    Action Report := do
  let snapshot ← t.commitFragments user fragments
  return report.counted user units (changesOf fragments) snapshot

/-- A job is run and then finished. -/
theorem runUnits_eq_finish (t : Table) (executor : Executor) (user : String) (units : List WorkUnit) (report : Report) :
    t.runUnits executor user units report =
      executor.run units (t.worker t.mode) t.sendable >>= t.finish user units report := rfl

/-- A compaction whose units are dealt out to threads in a way of its own. -/
def compactDealt (t : Table) (deal : List WorkUnit → List (List WorkUnit)) (user : String) (r : Request) :
    Action Report := do
  let t := t.forCompaction
  let report : Report := { table := t.name, strategy := r.strategy, mode := some t.mode, partitions := r.partitions }
  let units ← Effect.ofRead fun s => t.plan s r
  if units.isEmpty then return { report with status := .skipped }
  let fragments ← Executor.runThreads (t.worker t.mode) 0 (deal units)
  t.finish user units report fragments

end Table

/-- Whether two runs from the same storage come to the same: both fail and commit nothing, or both succeed, with
reports that differ in the identity at most and with buckets that mirror each other. -/
inductive Agree (s : Storage) : Except Fault Report × Storage → Except Fault Report × Storage → Prop
  | failed {fault fault' : Fault} {s₁ s₂ : Storage} (h₁ : s₁.snapshots = s.snapshots)
      (h₂ : s₂.snapshots = s.snapshots) : Agree s (.error fault, s₁) (.error fault', s₂)
  | succeeded {report report' : Report} {s₁ s₂ : Storage} (hreport : report' = { report with user := report'.user })
      (hmirrors : s₁.Mirrors s₂) : Agree s (.ok report, s₁) (.ok report', s₂)

variable {t : Table} {s s₁ s₂ : Storage} {r : Request} {units : List WorkUnit} {fs gs : List Fragment}
variable {deal deal' : List WorkUnit → List (List WorkUnit)} {user user' : String}

private theorem Storage.Mirrors.of_manifest (h : s₂.manifest = s₁.manifest)
    (hsame : ∀ x ∈ s₁.manifest.files, s₁.view x = s₂.view x) : s₁.Mirrors s₂ := by
  rw [Mirrors, h, List.forall₂_same]
  intro e he
  refine ⟨rfl, .of_eq (List.map_congr_left fun x hx => hsame x ?_)⟩
  exact Manifest.mem_files.2 ⟨e, he, hx⟩

/-! ### Counting -/

private theorem Number.total_perm {ns ns' : List Nat} (h : ns.Perm ns') : total ns = total ns' := by
  induction h with
  | nil => rfl
  | cons n _ ih => rw [total, total, ih]
  | swap m n rest =>
    simp only [total]
    omega
  | trans _ _ ih ih' => exact ih.trans ih'

/-- Reports count outlines, in any order, and differ in the identity at most. -/
private theorem counted_of_outlines (h : (fs.map (Fragment.outline s₁)).Perm (gs.map (Fragment.outline s₂)))
    (report : Report) (snapshot : Option Nat) : report.counted user' units gs snapshot =
      { report.counted user units fs snapshot with user := some user' } := by
  have hlength := h.length_eq
  have hbefore := Number.total_perm (h.map fun o => o.before.length)
  have hafter := Number.total_perm (h.map fun o => o.after.length)
  simp only [List.map_map, Function.comp_def, Fragment.outline, List.length_map] at hlength hbefore hafter
  simp only [Report.counted, Table.countFiles, hlength, hbefore, hafter]

/-! ### Finishing -/

section Finish

variable (user : String) (units : List WorkUnit) (report : Report) (hfs : ∀ f ∈ fs, f.Replaces)
include hfs

private theorem Table.finish_of_not_accepts (h : ¬ s.Accepts fs) :
    ∃ fault, t.finish user units report fs s = (.error fault, s) := by
  have hcases := t.commitFragments_cases user fs s
  rw [changesOf_eq_self fun f hf => (hfs f hf).after] at hcases
  rcases hcases with ⟨-, fault, e⟩ | ⟨rfl, -⟩ | ⟨-, haccepts, -⟩
  · exact ⟨fault, Effect.bind_of_error e⟩
  · exact absurd ⟨by simp, Manifest.admits_of_before_eq_nil (by simp)⟩ h
  · exact absurd haccepts h

private theorem Table.finish_of_accepts (h : s.Accepts fs) :
    (fs = [] → t.finish user units report fs s = (.ok (report.counted user units fs none), s)) ∧
    (fs ≠ [] → t.finish user units report fs s =
      (.ok (report.counted user units fs (some (s.snapshots.length + 1))),
        s.withSnapshot user "COMPACT" (s.manifest.committed fs))) := by
  have hcases := t.commitFragments_cases user fs s
  unfold finish
  rw [changesOf_eq_self fun f hf => (hfs f hf).after] at hcases ⊢
  rcases hcases with ⟨hrefused, -⟩ | ⟨hnone, e⟩ | ⟨hsome, -, e⟩
  · exact absurd h hrefused
  · exact ⟨fun _ => Effect.bind_of_ok e, fun hsome => absurd hnone hsome⟩
  · exact ⟨fun hnone => absurd hnone hsome, fun _ => Effect.bind_of_ok e⟩

end Finish

/-- What a job comes to depends on the outlines of its fragments, in any order. -/
theorem finish_agrees (hs : s.Sound t) (hp : s.manifest.Proper) (h₁ : s.Completes s₁ fs) (h₂ : s.Completes s₂ gs)
    (hfs : ∀ f ∈ fs, f.Replaces) (hgs : ∀ g ∈ gs, g.Replaces)
    (h : (fs.map (Fragment.outline s₁)).Perm (gs.map (Fragment.outline s₂))) (report : Report) :
    Agree s (t.finish user units report fs s₁) (t.finish user' units report gs s₂) := by
  have hm₁ := h₁.writes.manifest
  have hm₂ := h₂.writes.manifest
  have haccepts := accepts_iff_of_outlines (hm₂.trans hm₁.symm) h
  by_cases hok : s₁.Accepts fs
  · have hok' := haccepts.1 hok
    have hsame : ∀ x ∈ s.manifest.files, s₁.view x = s₂.view x := fun x hx =>
      (h₁.writes.extends_.view_eq (hs.manifest.stored x hx)).trans
        (h₂.writes.extends_.view_eq (hs.manifest.stored x hx)).symm
    have hlength : fs.length = gs.length := by simpa using h.length_eq
    obtain ⟨hnone, hsome⟩ := t.finish_of_accepts user units report hfs hok
    obtain ⟨hnone', hsome'⟩ := t.finish_of_accepts user' units report hgs hok'
    by_cases hnil : fs = []
    · have hnil' : gs = [] := List.length_eq_zero_iff.1 (hlength ▸ List.length_eq_zero_iff.2 hnil)
      rw [hnone hnil, hnone' hnil']
      refine .succeeded (counted_of_outlines h report none) (.of_manifest (hm₂.trans hm₁.symm) ?_)
      rwa [hm₁]
    · have hnil' : gs ≠ [] := fun hg => hnil (List.length_eq_zero_iff.1 (hlength ▸ List.length_eq_zero_iff.2 hg))
      have hid : s₂.snapshots = s₁.snapshots := h₂.writes.snapshots.trans h₁.writes.snapshots.symm
      rw [hsome hnil, hsome' hnil', hid, hm₁, hm₂]
      refine .succeeded (counted_of_outlines h report _) ?_
      rw [Storage.Mirrors, Storage.manifest_withSnapshot, Storage.manifest_withSnapshot]
      rw [Storage.Accepts, hm₁] at hok
      rw [Storage.Accepts, hm₂] at hok'
      exact mirrors_committed hs.manifest.keys hp h hfs hgs hok.2 hok'.2 hsame
  · obtain ⟨fault, e⟩ := t.finish_of_not_accepts user units report hfs hok
    obtain ⟨fault', e'⟩ := t.finish_of_not_accepts user' units report hgs fun hok' => hok (haccepts.2 hok')
    rw [e, e']
    exact .failed h₁.writes.snapshots h₂.writes.snapshots

/-! ### Dealing out -/

/-- Parallelism is one way of dealing out the units. -/
private theorem Table.compact_threads (t : Table) (workers : Int) (user : String) (hr : r.strategy = .none) :
    t.compact (.threads (.whole workers)) user r =
      t.compactDealt (fun units => slices units (min workers units.length)) user r := by
  unfold compact compactDealt
  dsimp only
  rw [if_pos hr]
  simp only [runUnits_eq_finish]
  rfl

/-- Units that are dealt out in any way are run without a fault, and their fragments have the outlines of all of them
in some order. -/
theorem exists_runThreads (hs : s.Sound t) (hw : ¬ t.isWriteOnly) (hunits : ∀ u ∈ units, u.IsPlain ∧ u.Fits t.mode)
    (hready : ∀ u ∈ units, u.Ready s) {slices : List (List WorkUnit)} (hslices : slices.flatten.Perm units) :
    ∃ fragments s', Executor.runThreads (t.worker t.mode) 0 slices s = (.ok fragments, s') ∧
      s.Completes s' fragments ∧ (∀ f ∈ fragments, f.Replaces) ∧
      (fragments.map (Fragment.outline s')).Perm (units.flatMap (WorkUnit.outlines s)) := by
  have hready' : ∀ u ∈ slices.flatten, u.Ready s := fun u hu => hready u (hslices.subset hu)
  obtain ⟨fragments, s', hrun, hc, houtlines⟩ := exists_compactUnits hs hw
    (fun u hu => (hunits u (hslices.subset hu)).1) hready'
  have hfits : ∀ slice ∈ slices, ∀ u ∈ slice, u.Fits t.mode := fun slice hslice u hu =>
    (hunits u (hslices.subset (List.mem_flatten.2 ⟨slice, hslice, hu⟩))).2
  refine ⟨fragments, s', (Executor.runThreads_eq_ok hs.willing hfits).2 hrun, hc,
    replaces_of_outlines hready' hc houtlines, ?_⟩
  rw [houtlines]
  exact hslices.flatMap_right _

/-- Planned units cannot be run at all, or all of them are. -/
private theorem Table.run_cases (hs : s.Sound t) (hw : ¬ t.isWriteOnly)
    (hunits : ∀ u ∈ units, u.IsPlain ∧ u.Fits t.mode) (hready : ∀ u ∈ units, u.Ready s) (executor : Executor) :
    (∃ fault, executor.run units (t.worker t.mode) t.sendable s = (.error fault, s)) ∨
    ∃ fragments s', executor.run units (t.worker t.mode) t.sendable s = (.ok fragments, s') ∧
      s.Completes s' fragments ∧ (∀ f ∈ fragments, f.Replaces) ∧
      (fragments.map (Fragment.outline s')).Perm (units.flatMap (WorkUnit.outlines s)) := by
  cases executor with
  | threads workers =>
    simp only [Executor.run]
    cases workers.localCount? units.length with
    | none => exact .inl ⟨_, rfl⟩
    | some n => exact .inr (exists_runThreads hs hw hunits hready (flatten_slices_perm units n))
  | engine engine workers =>
    cases units with
    | nil => exact .inr ⟨[], s, rfl, .nil hs.numbered, by simp, .refl _⟩
    | cons u rest => exact .inl ⟨_, rfl⟩

/-- A job fails after files were written maybe, or its fragments are accepted and it succeeds: there are none, or they
are committed as one snapshot. -/
theorem Table.runUnits_counted (hs : s.Sound t) (hw : ¬ t.isWriteOnly) (hunits : ∀ u ∈ units, u.IsPlain ∧ u.Fits t.mode)
    (hready : ∀ u ∈ units, u.Ready s) (executor : Executor) (user : String) (report : Report) :
    (∃ fault s' files, t.runUnits executor user units report s = (.error fault, s') ∧ s.Writes s' files) ∨
    ∃ fragments s', s.Completes s' fragments ∧ (∀ f ∈ fragments, f.Replaces) ∧
      (fragments.map (Fragment.outline s')).Perm (units.flatMap (WorkUnit.outlines s)) ∧ s'.Accepts fragments ∧
      ((fragments = [] ∧
        t.runUnits executor user units report s = (.ok (report.counted user units fragments none), s')) ∨
      (fragments ≠ [] ∧ t.runUnits executor user units report s =
        (.ok (report.counted user units fragments (some (s'.snapshots.length + 1))),
          s'.withSnapshot user "COMPACT" (s'.manifest.committed fragments)))) := by
  rw [runUnits_eq_finish]
  rcases run_cases hs hw hunits hready executor with ⟨fault, e⟩ | ⟨fragments, s', e, hc, hreplaces, houtlines⟩
  · rw [Effect.bind_of_error e]
    exact .inl ⟨fault, s, [], rfl, .nil hs.numbered⟩
  · rw [Effect.bind_of_ok e]
    by_cases hok : s'.Accepts fragments
    · obtain ⟨hnone, hsome⟩ := t.finish_of_accepts user units report hreplaces hok
      refine .inr ⟨fragments, s', hc, hreplaces, houtlines, hok, ?_⟩
      by_cases hnil : fragments = []
      · exact .inl ⟨hnil, hnone hnil⟩
      · exact .inr ⟨hnil, hsome hnil⟩
    · obtain ⟨fault, e'⟩ := t.finish_of_not_accepts user units report hreplaces hok
      exact .inl ⟨fault, s', _, e', hc.writes⟩

private theorem compactDealt_agrees (hs : s.Sound t) (hp : s.manifest.Proper) (hr : r.strategy = .none)
    (hdeal : ∀ units, (deal units).flatten.Perm units) (hdeal' : ∀ units, (deal' units).flatten.Perm units) :
    Agree s (t.compactDealt deal user r s) (t.compactDealt deal' user' r s) := by
  unfold Table.compactDealt
  dsimp only
  rw [Effect.ofRead_bind, Effect.ofRead_bind, Table.plan_forCompaction]
  cases hplan : t.plan s r with
  | error fault => exact .failed rfl rfl
  | ok units =>
    dsimp only
    by_cases hnone : units.isEmpty
    · rw [if_pos hnone, if_pos hnone]
      exact .succeeded rfl (.of_manifest rfl fun _ _ => rfl)
    · have hs₀ : s.Sound t.forCompaction := hs.handle _
      have hw := t.not_isWriteOnly_forCompaction
      have hunits : ∀ u ∈ units, u.IsPlain ∧ u.Fits t.forCompaction.mode :=
        Table.isPlain_of_plan ((t.plan_forCompaction s r).trans hplan) hs.manifest.nodup
      have hready := ready_of_plan hs hr hplan
      obtain ⟨fs, s₁, e, hc, hfs, houtlines⟩ := exists_runThreads hs₀ hw hunits hready (hdeal units)
      obtain ⟨gs, s₂, e', hc', hgs, houtlines'⟩ := exists_runThreads hs₀ hw hunits hready (hdeal' units)
      rw [if_neg hnone, if_neg hnone, Effect.bind_of_ok e, Effect.bind_of_ok e']
      exact finish_agrees hs₀ hp hc hc' hfs hgs (houtlines.trans houtlines'.symm) _

namespace World

variable {w : World}

/-- However the units of a job are dealt out, each of them once, it comes to the same. In particular it does so for any
two numbers of workers. -/
theorem compact_agrees (h : w.Reached t) (hr : r.strategy = .none) (options : List (String × String)) :
    (∀ (deal deal' : List WorkUnit → List (List WorkUnit)) (user user' : String),
      (∀ units, (deal units).flatten.Perm units) → (∀ units, (deal' units).flatten.Perm units) →
      Agree w.storage ((t.handle options).compactDealt deal user r w.storage)
        ((t.handle options).compactDealt deal' user' r w.storage)) ∧
    ∀ (workers workers' : Int) (user user' : String),
      Agree w.storage ((t.handle options).compact (.threads (.whole workers)) user r w.storage)
        ((t.handle options).compact (.threads (.whole workers')) user' r w.storage) := by
  have hs := h.sound.storage.handle options
  constructor
  · intro deal deal' user user' hdeal hdeal'
    exact compactDealt_agrees hs h.proper hr hdeal hdeal'
  · intro workers workers' user user'
    rw [Table.compact_threads _ workers user hr, Table.compact_threads _ workers' user' hr]
    exact compactDealt_agrees hs h.proper hr (fun units => flatten_slices_perm units _)
      fun units => flatten_slices_perm units _

/-- Three buckets: one worker merges them in their order, two workers in another one. -/
theorem compact_agrees_of_three_buckets :
    let t : Table := ⟨"t", ["dt"], .dynamic, 1, [], []⟩
    let append (n : Int) : Event := .append [] [[("dt", .int 1), ("v", .int n)], [("dt", .int 2), ("v", .int n)],
      [("dt", .int 3), ("v", .int n)]] none "u"
    let w := run t [append 1, append 2]
    Agree w.storage (t.compact (.threads (.whole 1)) "u" {} w.storage)
      (t.compact (.threads (.whole 2)) "v" {} w.storage) ∧
    (t.compact (.threads (.whole 1)) "u" {} w.storage).2.manifest.map Entry.files ≠
      (t.compact (.threads (.whole 2)) "v" {} w.storage).2.manifest.map Entry.files := by
  intro t append w
  have hhandle : t.handle [] = t := rfl
  obtain ⟨-, hworkers⟩ := compact_agrees (r := {}) (reached_run t [append 1, append 2]) rfl []
  rw [hhandle] at hworkers
  refine ⟨hworkers 1 2 "u" "v", ?_⟩
  decide +kernel

end World

end Compaction
