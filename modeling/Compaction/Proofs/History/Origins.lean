import Compaction.Proofs.History.Moves
import Compaction.Proofs.History.Named
import Compaction.Proofs.Job.Made
import Mathlib.Data.List.Induction

/-!
# Where fragments come from

Every file that a fragment replaces was live under some bucket when it was chosen, and the fragment is for the bucket
that files merged from that one go to (`Fragment.Rooted`). The fragments of a job come from its units (`Job.Traced`), so
as long as none of these is compacted twice, no two of its fragments replace the same file
(`Job.Traced.apart_fragments`).
-/

namespace Compaction

namespace Move

/-- The number of the unit of the `i`-th job that is compacted. -/
def unitOf (i : Nat) : Move → Option Nat
  | .event (.compact _ job unit _ _) => if job = i then some unit else none
  | _ => none

/-- Whether the `i`-th job is ended. -/
def Ends (i : Nat) : Move → Prop
  | .event (.commit _ job _) => job = i
  | .event (.abandon job) => job = i
  | _ => False

end Move

/-- Whether a fragment's partition is a key with a text, and each file that it replaces is, as long as it is live, in a
bucket whose merged files go to the bucket of the fragment. -/
structure Fragment.Rooted (t : Table) (w : World) (f : Fragment) : Prop where
  isKey : f.partition.isKey
  printed : f.partition.prints
  origin : ∀ x ∈ f.before, ∃ key, w.Confines (· = key) x ∧ f.key = t.mergedKey key

/-- Whether all that is made of a unit is rooted. -/
def WorkUnit.Rooted (t : Table) (w : World) : WorkUnit → Prop
  | .bucket p _ => t.mode.isAssigned ∧ p.isKey ∧ p.prints
  | .task version payload => ∀ m f, (WorkUnit.task version payload).Makes m f → f.Rooted t w

/-- Whether the fragments of a job are made of its units: in some order, each of a unit whose number is among those
that are done. -/
structure Job.Traced (t : Table) (w : World) (done : List Nat) (j : Job) : Prop where
  rooted : ∀ u ∈ j.units, u.Rooted t w
  apart : j.units.Pairwise WorkUnit.Apart
  made : ∃ made : List (Nat × Fragment), (made.map Prod.snd).Perm j.fragments ∧ (made.map Prod.fst).Sublist done ∧
    ∀ p ∈ made, p.2.Rooted t w ∧ ∃ u m, j.units[p.1]? = some u ∧ u.Makes m p.2

namespace World

/-- What a move may leave as the `i`-th job: what it was, nothing if the job is ended, a job that has just been
planned, or the job with what one of its units makes. -/
inductive Follows (t : Table) (w : World) (i : Nat) : Move → Job → Prop
  | same {m : Move} {j : Job} (hm : ¬ m.Ends i) (hj : w.jobs[i]? = some j) : Follows t w i m j
  | ended {m : Move} (hm : m.Ends i) : Follows t w i m {}
  | begun {options : List (String × String)} {request : Request} {units : List WorkUnit}
      (hplan : (t.handle options).plan w.storage request = .ok units) :
      Follows t w i (.event (.plan options request)) { units }
  | grown {options : List (String × String)} {unit place : Nat} {full : Bool} {j : Job} {u : WorkUnit}
      {fs : List Fragment} {s : Storage} (hj : w.jobs[i]? = some j) (hu : j.units[unit]? = some u)
      (hmade : (t.handle options).compactUnit full u w.storage = (.ok fs, s)) :
      Follows t w i (.event (.compact options i unit full place)) (j.insert place fs)

variable {t : Table} {w : World} {i : Nat} {m : Move} {j j' : Job}

private theorem follows_set {m : Move} {job : Nat} (hm : m.Ends i ↔ job = i) (h : (w.jobs.set job {})[i]? = some j) :
    w.Follows t i m j := by
  by_cases hi : job = i
  · subst hi
    obtain ⟨-, rfl⟩ : job < w.jobs.length ∧ {} = j := by simpa [List.getElem?_set] using h
    exact .ended (hm.2 rfl)
  · rw [List.getElem?_set_ne hi] at h
    exact .same (fun hends => hi (hm.1 hends)) h

theorem follows_move (h : (w.move t m).jobs[i]? = some j) : w.Follows t i m j := by
  cases m with
  | overwrite options rows strategy columns => exact .same id h
  | event e =>
    cases e with
    | append options rows bucket user =>
      rw [move, step, jobs_append] at h
      exact .same id h
    | plan options request =>
      rw [move, step, plan] at h
      cases hplan : (t.handle options).plan w.storage request with
      | error fault =>
        rw [hplan] at h
        exact .same id h
      | ok units =>
        rw [hplan] at h
        rcases Nat.lt_or_ge i w.jobs.length with hi | hi
        · rw [List.getElem?_append_left hi] at h
          exact .same id h
        · rw [List.getElem?_append_right hi] at h
          rw [List.mem_singleton.1 (List.mem_of_getElem? h)]
          exact .begun hplan
    | compact options job unit full place =>
      rw [move, step] at h
      rcases w.compact_cases (t.handle options) job unit full place with
        e | ⟨j₀, u, hj, hu, ⟨fault, s, -, e⟩ | ⟨fs, s, hmade, e⟩⟩
      · rw [e] at h
        exact .same id h
      · rw [e] at h
        exact .same id h
      · rw [e] at h
        by_cases hi : job = i
        · subst hi
          obtain ⟨-, rfl⟩ : job < w.jobs.length ∧ j₀.insert place fs = j := by
            simpa [List.getElem?_set] using h
          exact .grown hj hu hmade
        · rw [List.getElem?_set_ne hi] at h
          exact .same id h
    | commit options job user =>
      rw [move, step, commit] at h
      cases hj : w.jobs[job]? with
      | none =>
        rw [hj] at h
        refine .same (fun hends => ?_) h
        cases hends
        rw [hj] at h
        cases h
      | some j₀ =>
        rw [hj] at h
        exact follows_set Iff.rfl h
    | abandon job => exact follows_set Iff.rfl h

end World

/-! ### Rooted fragments -/

variable {t : Table} {w : World} {done : List Nat} {i : Nat} {j : Job} {u : WorkUnit}

theorem Fragment.Rooted.move {f : Fragment} (h : f.Rooted t w) (hw : w.Reached t) (m : Move) :
    f.Rooted t (w.move t m) := by
  refine ⟨h.isKey, h.printed, fun x hx => ?_⟩
  obtain ⟨key, hconfines, hk⟩ := h.origin x hx
  exact ⟨key, hconfines.move hw.sound m, hk⟩

theorem WorkUnit.Rooted.move (h : u.Rooted t w) (hw : w.Reached t) (m : Move) : u.Rooted t (w.move t m) := by
  cases u with
  | bucket p bucket => exact h
  | task version payload => exact fun m' f hf => (h m' f hf).move hw m

/-- The units of a plan are rooted. -/
private theorem rooted_of_plan (hw : w.Reached t) {options : List (String × String)} {r : Request}
    {units : List WorkUnit} (h : (t.handle options).plan w.storage r = .ok units) : ∀ u ∈ units, u.Rooted t w := by
  intro u hu
  rcases Table.plan_cases h with ⟨hm, entries, hsub, rfl⟩ | ⟨hm, tasks, hsupplies, h⟩
  · obtain ⟨e, he, rfl⟩ := List.mem_map.1 hu
    exact ⟨hm, hw.proper.isKey e (hsub.subset he), hw.prints_partition e (hsub.subset he)⟩
  · obtain ⟨task, htask, henc⟩ := Except.exists_of_mapM_eq_ok h hu
    obtain ⟨e, he, hp, hfiles⟩ := hsupplies.bucket task htask
    have hmakes : ∀ m f, u.Makes m f → f.Rooted t w := by
      intro m f hf
      obtain ⟨hpartition, hbucket, hbefore⟩ := hf.of_encodeTask henc
      rw [hp] at hpartition
      refine ⟨?_, ?_, fun x hx => ⟨e.key, hw.sound.confines he (hfiles.subset (hbefore ▸ hx)), ?_⟩⟩
      · rw [hpartition, Partition.isKey_unmarked]
        exact hw.proper.isKey e he
      · rw [hpartition, Partition.prints_unmarked]
        exact hw.prints_partition e he
      · have hassigned : ¬ t.mode.isAssigned := hm
        rw [Fragment.key, hpartition, hbucket, Partition.keys_unmarked, Table.mergedKey, if_neg hassigned, Entry.key]
    obtain ⟨version, payload, rfl, -⟩ := Table.encodeTask_eq_ok henc
    exact hmakes

/-- What is made of a rooted unit is rooted. -/
theorem WorkUnit.Rooted.makes (h : u.Rooted t w) (hw : w.Sound t) {f : Fragment} (hf : u.Makes w.storage.manifest f) :
    f.Rooted t w := by
  cases u with
  | task version payload => exact h _ f hf
  | bucket p bucket =>
    obtain ⟨hassigned, hkey, hprints⟩ := h
    obtain ⟨hp, -, hbefore⟩ := hf
    refine ⟨hp ▸ hkey, hp ▸ hprints, fun x hx => ?_⟩
    obtain ⟨e, he, hk, hxe⟩ := hbefore x hx
    refine ⟨e.key, hw.confines he hxe, ?_⟩
    rw [Table.mergedKey, if_pos hassigned, hk]

/-! ### Traced jobs -/

namespace Job.Traced

theorem empty (t : Table) (w : World) (done : List Nat) : ({} : Job).Traced t w done :=
  ⟨by simp, .nil, [], by simp, by simp, by simp⟩

theorem move (h : j.Traced t w done) (hw : w.Reached t) (m : Move) {done' : List Nat} (hsub : done.Sublist done') :
    j.Traced t (w.move t m) done' := by
  obtain ⟨made, hperm, hdone, hmade⟩ := h.made
  refine ⟨fun u hu => (h.rooted u hu).move hw m, h.apart, made, hperm, hdone.trans hsub, fun p hp => ?_⟩
  obtain ⟨hrooted, hmakes⟩ := hmade p hp
  exact ⟨hrooted.move hw m, hmakes⟩

/-- A job stays traced when fragments are made of one of its units. -/
theorem insert (h : j.Traced t w done) (hw : w.Sound t) {unit : Nat} (hu : j.units[unit]? = some u)
    {options : List (String × String)} {full : Bool} {fs : List Fragment} {s : Storage}
    (hmade : (t.handle options).compactUnit full u w.storage = (.ok fs, s)) (place : Nat) :
    (j.insert place fs).Traced t w (done ++ [unit]) := by
  obtain ⟨made, hperm, hdone, hrooted⟩ := h.made
  obtain ⟨hone, hmakes⟩ := compactUnit_makes hmade
  refine ⟨h.rooted, h.apart, made ++ fs.map fun f => (unit, f), ?_, ?_, ?_⟩
  · rw [List.map_append, List.map_map]
    have hfs : fs.map (Prod.snd ∘ fun f => (unit, f)) = fs := List.map_id' fs
    rw [hfs]
    exact (hperm.append_right fs).trans (List.perm_append_comm.trans (World.perm_insert j place fs).symm)
  · rw [List.map_append, List.map_map]
    refine hdone.append ?_
    -- there is one fragment of the unit at most, so its number is used up once
    match fs, hone with
    | [], _ => exact List.nil_sublist _
    | [f], _ => exact .refl _
  · intro p hp
    rcases List.mem_append.1 hp with hp | hp
    · exact hrooted p hp
    · obtain ⟨f, hf, rfl⟩ := List.mem_map.1 hp
      exact ⟨(h.rooted u (List.mem_of_getElem? hu)).makes hw (hmakes f hf), u, _, hu, hmakes f hf⟩

theorem rooted_fragment (h : j.Traced t w done) : ∀ f ∈ j.fragments, f.Rooted t w := by
  obtain ⟨made, hperm, -, hmade⟩ := h.made
  intro f hf
  obtain ⟨p, hp, rfl⟩ := List.mem_map.1 (hperm.mem_iff.2 hf)
  exact (hmade p hp).1

/-- If no unit is done twice, no two fragments replace the same file. -/
theorem apart_fragments (h : j.Traced t w done) (hn : done.Nodup) : j.fragments.Pairwise Fragment.Apart := by
  obtain ⟨made, hperm, hdone, hmade⟩ := h.made
  have hunits : (made.map Prod.fst).Nodup := hn.sublist hdone
  refine hperm.pairwise ?_ fun hfg => hfg.symm
  rw [List.pairwise_map]
  refine (List.pairwise_map.1 hunits).imp_of_mem fun {p q} hp hq hne => ?_
  obtain ⟨-, u, m, hu, hf⟩ := hmade p hp
  obtain ⟨-, u', m', hu', hf'⟩ := hmade q hq
  -- fragments with different numbers are of units that are apart, whichever of the two comes first
  obtain ⟨hi, rfl⟩ := List.getElem?_eq_some_iff.1 hu
  obtain ⟨hi', rfl⟩ := List.getElem?_eq_some_iff.1 hu'
  rcases Nat.lt_or_gt_of_ne hne with hlt | hlt
  · exact List.pairwise_iff_getElem.1 h.apart _ _ hi hi' hlt m m' p.2 q.2 hf hf'
  · exact (List.pairwise_iff_getElem.1 h.apart _ _ hi' hi hlt m' m q.2 p.2 hf' hf).symm

end Job.Traced

namespace World

private theorem traced_move (hw : w.Reached t) (h : ∀ j, w.jobs[i]? = some j → j.Traced t w done) (m : Move) :
    ∀ j, (w.move t m).jobs[i]? = some j → j.Traced t (w.move t m) (done ++ (m.unitOf i).toList) := by
  intro j hj
  cases follows_move hj with
  | same hm hj₀ => exact (h j hj₀).move hw m (List.sublist_append_left _ _)
  | ended hm => exact .empty t _ _
  | @begun options request units hplan =>
    have hplanned : Job.Traced t w [] { units } :=
      ⟨rooted_of_plan hw hplan, apart_of_plan (hw.sound.storage.handle options) hplan, [], by simp, by simp, by simp⟩
    exact hplanned.move hw _ (List.nil_sublist _)
  | @grown options unit place full j u fs s hj₀ hu hmade =>
    refine ((h j hj₀).insert hw.sound hu hmade place).move hw _ ?_
    simp [Move.unitOf]

/-- Every job is traced to the units of it that were compacted. -/
theorem traced_play (t : Table) (moves : List Move) (i : Nat) : ∀ j, (play t {} moves).jobs[i]? = some j →
    j.Traced t (play t {} moves) (moves.filterMap (Move.unitOf i)) := by
  induction moves using List.reverseRecOn with
  | nil =>
    intro j hj
    simp [play] at hj
  | append_singleton moves m ih =>
    have hstep := traced_move (Reached.start.play moves) ih m
    rw [play_append, List.filterMap_append]
    have hlast : [m].filterMap (Move.unitOf i) = (m.unitOf i).toList := by
      cases hm : m.unitOf i <;> simp [hm]
    rw [hlast]
    exact hstep

end World

end Compaction
