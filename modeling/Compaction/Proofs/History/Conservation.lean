import Compaction.Proofs.History.World

/-!
# Conservation of rows

Appends and jobs may come in any order: the rows of a table are those of its appends, no row lost, repeated or changed
(`run_readRows`). The invariant is that pending fragments merge stored files, and that no file is both live and
pending, or pending twice (`World.Sound`). So a commit that is admitted exchanges live files for others with the same
rows, whatever was done since its job was planned.
-/

namespace Compaction

namespace Storage

variable {t : Table} {options : List (String × String)} {s s' : Storage}

theorem Sound.handle (h : s.Sound t) (options : List (String × String)) : s.Sound (t.handle options) := by
  have hm := h.manifest
  exact ⟨h.numbered, ⟨hm.keys, hm.nodup, hm.stored, hm.placed, hm.printed⟩, h.willing⟩

theorem Sound.of_handle (h : s.Sound (t.handle options)) : s.Sound t := by
  have hm := h.manifest
  exact ⟨h.numbered, ⟨hm.keys, hm.nodup, hm.stored, hm.placed, hm.printed⟩, h.willing⟩

end Storage

namespace World

/-- What is true of a table and the jobs in progress on it. -/
structure Sound (t : Table) (w : World) : Prop where
  storage : w.storage.Sound t
  plain : ∀ j ∈ w.jobs, ∀ u ∈ j.units, u.IsPlain
  merges : ∀ f ∈ w.pending, f.Merges w.storage
  fresh : (w.storage.manifest.files ++ w.pending.flatMap Fragment.after).Nodup

/-- Whether a table has come to a sound one that has gained just the rows appended since. -/
structure Gains (t : Table) (w w' : World) : Prop where
  sound : w'.Sound t
  rows : ∃ new, w'.appended = w.appended ++ new ∧ w'.rows.Perm (w.rows ++ new)

variable {t : Table} {w w' w'' : World}

theorem sound_empty (t : Table) : Sound t {} :=
  ⟨Storage.sound_empty t, by simp, by simp [pending],
    by simp [pending, Storage.manifest, Storage.latest?, Manifest.files]⟩

theorem Gains.refl (h : w.Sound t) : w.Gains t w := ⟨h, [], by simp, by simp⟩

theorem Gains.trans (h : w.Gains t w') (h' : w'.Gains t w'') : w.Gains t w'' := by
  obtain ⟨new, happ, hrows⟩ := h.rows
  obtain ⟨new', happ', hrows'⟩ := h'.rows
  refine ⟨h'.sound, new ++ new', ?_, ?_⟩
  · rw [happ', happ, List.append_assoc]
  · rw [← List.append_assoc]
    exact hrows'.trans (hrows.append_right _)

theorem Sound.stored (h : w.Sound t) : ∀ x ∈ w.pending.flatMap Fragment.after, w.storage.Stores x := by
  intro x hx
  obtain ⟨f, hf, hx⟩ := List.mem_flatMap.1 hx
  exact (h.merges f hf).after x hx

private theorem Sound.stored_append (h : w.Sound t) :
    ∀ x ∈ w.storage.manifest.files ++ w.pending.flatMap Fragment.after, w.storage.Stores x := by
  intro x hx
  rcases List.mem_append.1 hx with hx | hx
  · exact h.storage.manifest.stored x hx
  · exact h.stored x hx

/-- Files that no snapshot lists change nothing. -/
theorem gains_writes (h : w.Sound t) {s' : Storage} {files : List DataFile} (hw : w.storage.Writes s' files) :
    w.Gains t { w with storage := s' } := by
  refine ⟨⟨h.storage.writes hw, h.plain, fun f hf => (h.merges f hf).extends hw.extends_, ?_⟩, [],
    (List.append_nil _).symm, ?_⟩
  · rw [hw.manifest]
    exact h.fresh
  · rw [List.append_nil, rows, rows, hw.manifest]
    exact .of_eq (hw.extends_.flatMap_rowsOf h.storage.manifest.stored)

/-! ### Appends -/

private theorem gains_append (h : w.Sound t) (options : List (String × String)) (rows : List Row) (bucket : Option Int)
    (user : String) : w.Gains t (w.append (t.handle options) rows bucket user) := by
  unfold append
  rcases (t.handle options).append_cases (h.storage.handle options) rows bucket user with
    ⟨fault, s', files, e, hw⟩ | ⟨-, e⟩ | ⟨id, s', e, hpub⟩
  · rw [e]
    exact gains_writes h hw
  · rw [e]
    exact .refl h
  · rw [e]
    have hs' : s'.Sound t := hpub.sound.of_handle
    refine ⟨⟨hs', h.plain, fun f hf => (h.merges f hf).extends hpub.extends_, ?_⟩, rows, rfl, ?_⟩
    · exact hpub.nodup_append h.stored h.fresh
    · exact hpub.rowsIn (h.storage.handle options)

/-! ### Jobs -/

private theorem gains_plan (h : w.Sound t) (options : List (String × String)) (request : Request) :
    w.Gains t (w.plan (t.handle options) request) := by
  unfold plan
  cases hp : (t.handle options).plan w.storage request with
  | error fault => exact .refl h
  | ok units =>
    have hpending : pending { w with jobs := w.jobs ++ [{ units }] } = w.pending := by
      simp [pending]
    refine ⟨⟨h.storage, ?_, ?_, ?_⟩, [], (List.append_nil _).symm, ?_⟩
    · intro j hj
      rcases List.mem_append.1 hj with hj | hj
      · exact h.plain j hj
      · rw [List.mem_singleton.1 hj]
        exact fun u hu => (Table.isPlain_of_plan hp h.storage.manifest.nodup u hu).1
    · rw [hpending]
      exact h.merges
    · rw [hpending]
      exact h.fresh
    · rw [List.append_nil]
      exact .refl _

/-- Changing one job changes what is pending by its fragments. -/
private theorem pending_set {jobs : List Job} {i : Nat} {j : Job} (h : jobs[i]? = some j) :
    ∃ others, (jobs.flatMap Job.fragments).Perm (j.fragments ++ others) ∧
      ∀ j' : Job, ((jobs.set i j').flatMap Job.fragments).Perm (j'.fragments ++ others) := by
  induction jobs generalizing i with
  | nil => simp at h
  | cons j₀ rest ih =>
    cases i with
    | zero =>
      obtain rfl : j₀ = j := by simpa using h
      exact ⟨rest.flatMap Job.fragments, .refl _, fun j' => .refl _⟩
    | succ i =>
      obtain ⟨others, hp, hset⟩ := ih (by simpa using h)
      refine ⟨j₀.fragments ++ others, ?_, fun j' => ?_⟩
      · exact (hp.append_left _).trans (List.perm_append_comm_assoc ..)
      · exact ((hset j').append_left _).trans (List.perm_append_comm_assoc ..)

theorem perm_insert (j : Job) (place : Nat) (fs : List Fragment) :
    (j.insert place fs).fragments.Perm (fs ++ j.fragments) :=
  calc
    (j.fragments.take place ++ fs ++ j.fragments.drop place).Perm
        (fs ++ j.fragments.take place ++ j.fragments.drop place) := List.perm_append_comm.append_right _
    _ = fs ++ j.fragments := by rw [List.append_assoc, List.take_append_drop]

theorem pending_insert {job : Nat} {j : Job} (h : w.jobs[job]? = some j) (place : Nat) (fs : List Fragment) :
    ((w.jobs.set job (j.insert place fs)).flatMap Job.fragments).Perm (w.pending ++ fs) := by
  obtain ⟨others, hp, hset⟩ := pending_set h
  refine (hset _).trans (((perm_insert j place fs).append_right others).trans ?_)
  rw [List.append_assoc]
  exact List.perm_append_comm.trans (hp.symm.append_right fs)

/-- In a sound world compacting leaves nothing but files that no snapshot lists, or a job has some more fragments that
merge stored files. -/
theorem Sound.compact_cases (h : w.Sound t) (t' : Table) (job unit : Nat) (full : Bool) (place : Nat) :
    (∃ s' files, w.compact t' job unit full place = { w with storage := s' } ∧ w.storage.Writes s' files) ∨
    ∃ j u fs s', w.jobs[job]? = some j ∧ j.units[unit]? = some u ∧
      t'.compactUnit full u w.storage = (.ok fs, s') ∧ w.storage.Completes s' fs ∧
      w.compact t' job unit full place = { w with storage := s', jobs := w.jobs.set job (j.insert place fs) } := by
  rcases w.compact_cases t' job unit full place with e | ⟨j, u, hj, hu, hmade⟩
  · exact .inl ⟨w.storage, [], e, .nil h.storage.numbered⟩
  · have hplain := h.plain j (List.mem_of_getElem? hj) u (List.mem_of_getElem? hu)
    rcases compactUnit_cases h.storage.numbered h.storage.manifest.nodup t' full hplain with
      ⟨fault, s', left, hfault, hw⟩ | ⟨fs, s', hfs, hc⟩
    · rcases hmade with ⟨_, _, hmade, e⟩ | ⟨_, _, hmade, -⟩
      · rw [hfault] at hmade
        cases hmade
        exact .inl ⟨s', left, e, hw⟩
      · rw [hfault] at hmade
        cases hmade
    · rcases hmade with ⟨_, _, hmade, -⟩ | ⟨_, _, hmade, e⟩
      · rw [hfs] at hmade
        cases hmade
      · rw [hfs] at hmade
        cases hmade
        exact .inr ⟨j, u, fs, s', hj, hu, hfs, hc, e⟩

private theorem gains_compact (h : w.Sound t) (t' : Table) (job unit : Nat) (full : Bool) (place : Nat) :
    w.Gains t (w.compact t' job unit full place) := by
  rcases h.compact_cases t' job unit full place with ⟨s', files, e, hw⟩ | ⟨j, u, fs, s', hj, -, -, hc, e⟩
  · rw [e]
    exact gains_writes h hw
  · rw [e]
    have hpending := pending_insert hj place fs
    refine ⟨⟨h.storage.writes hc.writes, ?_, ?_, ?_⟩, [], (List.append_nil _).symm, ?_⟩
    · intro j' hm
      rcases List.mem_or_eq_of_mem_set hm with hm | rfl
      · exact h.plain j' hm
      · exact h.plain j (List.mem_of_getElem? hj)
    · intro f hf
      rcases List.mem_append.1 (hpending.subset hf) with hf | hf
      · exact (h.merges f hf).extends hc.writes.extends_
      · exact hc.merges f hf
    · -- all files that are live or pending are stored, so the new ones are none of them
      have hn := hc.writes.nodup_append h.stored_append h.fresh
      rw [List.append_assoc, ← List.flatMap_append] at hn
      rw [hc.writes.manifest]
      exact ((hpending.flatMap_right _).append_left _).nodup_iff.2 hn
    · rw [List.append_nil, rows, rows, hc.writes.manifest]
      exact .of_eq (hc.writes.extends_.flatMap_rowsOf h.storage.manifest.stored)

/-- The fragments of a job that ends are pending no longer. -/
private theorem exists_pending_abandon {job : Nat} {j : Job} (h : w.jobs[job]? = some j) :
    ∃ others, w.pending.Perm (j.fragments ++ others) ∧ (w.abandon job).pending.Perm others := by
  obtain ⟨others, hp, hset⟩ := pending_set h
  exact ⟨others, hp, hset {}⟩

theorem mem_pending_of_abandon (job : Nat) {f : Fragment} (hf : f ∈ (w.abandon job).pending) : f ∈ w.pending := by
  cases hj : w.jobs[job]? with
  | none => rwa [abandon, List.set_eq_of_length_le (List.getElem?_eq_none_iff.1 hj)] at hf
  | some j =>
    obtain ⟨others, hp, hothers⟩ := exists_pending_abandon hj
    exact hp.mem_iff.2 (List.mem_append_right _ (hothers.mem_iff.1 hf))

private theorem gains_abandon (h : w.Sound t) (job : Nat) : w.Gains t (w.abandon job) := by
  cases hj : w.jobs[job]? with
  | none =>
    have : w.abandon job = w := by
      rw [abandon, List.set_eq_of_length_le (List.getElem?_eq_none_iff.1 hj)]
    rw [this]
    exact .refl h
  | some j =>
    obtain ⟨others, hp, hothers⟩ := exists_pending_abandon hj
    refine ⟨⟨h.storage, ?_, ?_, ?_⟩, [], (List.append_nil _).symm, ?_⟩
    · intro j' hm
      rcases List.mem_or_eq_of_mem_set hm with hm | rfl
      · exact h.plain j' hm
      · simp
    · intro f hf
      exact h.merges f (hp.mem_iff.2 (List.mem_append_right _ (hothers.mem_iff.1 hf)))
    · have hn := ((hp.flatMap_right Fragment.after).append_left w.storage.manifest.files).nodup_iff.1 h.fresh
      rw [List.flatMap_append] at hn
      refine ((hothers.flatMap_right _).append_left _).nodup_iff.2 (hn.sublist ?_)
      exact (List.sublist_append_right _ _).append_left _
    · rw [List.append_nil]
      exact .refl _

private theorem gains_commit (h : w.Sound t) (options : List (String × String)) (job : Nat) (user : String) :
    w.Gains t (w.commit (t.handle options) job user) := by
  rcases w.commit_cases (t.handle options) job user with e | ⟨j, hj, e⟩
  · rw [e]
    exact .refl h
  · have hended := (gains_abandon h job).sound
    rw [e]
    rcases (t.handle options).commitFragments_cases user j.fragments w.storage with
      ⟨-, fault, e⟩ | ⟨-, e⟩ | ⟨-, ⟨-, hadmits⟩, e⟩
    · rw [e]
      exact gains_abandon h job
    · rw [e]
      exact gains_abandon h job
    · rw [e]
      obtain ⟨others, hp, hothers⟩ := exists_pending_abandon hj
      have hsub : (changesOf j.fragments).Sublist j.fragments := List.filter_sublist
      generalize changesOf j.fragments = changes at hadmits hsub
      have hmerges : ∀ f ∈ changes, f.Merges w.storage := fun f hf => h.merges f (mem_pending hj f (hsub.subset hf))
      -- the fragments of the other jobs bring files apart from those of this one
      have hn : (w.storage.manifest.files ++ changes.flatMap Fragment.after ++
          others.flatMap Fragment.after).Nodup := by
        have hn := ((hp.flatMap_right Fragment.after).append_left w.storage.manifest.files).nodup_iff.1 h.fresh
        rw [List.flatMap_append, ← List.append_assoc] at hn
        exact hn.sublist (((hsub.flatMap _).append_left _).append_right _)
      have hfiles := Storage.files_commit h.storage hmerges hadmits
      have hs := Storage.sound_commit h.storage hmerges hadmits (List.nodup_append.1 hn).1 user "COMPACT"
      refine ⟨⟨hs, hended.plain, fun f hf => (hended.merges f hf).extends (List.prefix_refl _), ?_⟩,
        [], (List.append_nil _).symm, ?_⟩
      · rw [Storage.manifest_withSnapshot]
        refine ((hothers.flatMap_right _).append_left _).nodup_iff.2 ?_
        have hn' := (hfiles.append_right _).nodup_iff.1 hn
        rw [List.append_assoc] at hn'
        exact (List.nodup_append.1 hn').2.1
      · rw [List.append_nil, rows, Storage.manifest_withSnapshot]
        exact Storage.rowsIn_commit h.storage hmerges hadmits

/-! ### Runs -/

/-- Whatever is done next, a table stays sound and gains just the rows that are appended. -/
theorem gains_step (h : w.Sound t) (e : Event) : w.Gains t (w.step t e) := by
  cases e with
  | append options rows bucket user => exact gains_append h options rows bucket user
  | plan options request => exact gains_plan h options request
  | compact options job unit full place => exact gains_compact h (t.handle options) job unit full place
  | commit options job user => exact gains_commit h options job user
  | abandon job => exact gains_abandon h job

theorem gains_foldl (h : w.Sound t) (events : List Event) : w.Gains t (events.foldl (step t) w) := by
  induction events generalizing w with
  | nil => exact .refl h
  | cons e rest ih =>
    have hstep := gains_step h e
    exact hstep.trans (ih hstep.sound)

theorem gains_run (t : Table) (events : List Event) : Gains t {} (run t events) := gains_foldl (sound_empty t) events

theorem rows_run (t : Table) (events : List Event) : (run t events).rows.Perm (run t events).appended := by
  obtain ⟨new, happ, hrows⟩ := (gains_run t events).rows
  rw [happ]
  exact hrows

/-- At any time the rows that are read are those of the appends that gave a snapshot, whichever jobs were begun, and
whichever of their commits succeeded. -/
theorem run_readRows (t : Table) (events : List Event) : ∃ rows,
    (run t events).storage.readRows none = .ok rows ∧ rows.Perm (run t events).appended :=
  ⟨_, (gains_run t events).sound.storage.readRows_none, rows_run t events⟩

/-- Two files are merged while a third one is appended. -/
example :
    let t : Table := ⟨"t", [], .dynamic, 1, [], []⟩
    let append (n : Int) : Event := .append [] [[("v", .int n)]] none "u"
    let events := [append 1, append 2, .plan [] {}, .compact [] 0 0 true 0, append 3, .commit [] 0 "c"]
    (run t events).storage.manifest.files.map DataFile.name = ["data-000003.json", "data-000002.json"] := by
  decide

end World

end Compaction
