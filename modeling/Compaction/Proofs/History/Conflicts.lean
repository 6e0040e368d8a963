import Compaction.Proofs.History.Origins
import Compaction.Proofs.Table.Union

/-!
# Conflicts

A commit fails exactly if a file that the job has chosen was taken away since, or is in a bucket that merged files do
not go back to, and it reports a conflict then, if its message can be made (`commit_conflicts_iff`). On a table of
assigned buckets there are none of the second kind; on a table without them these are all buckets but 0, and those of
partitions with a NaN. Files are only ever taken away by other commits and by overwriting (`deprives_cases`).
-/

namespace Compaction

/-- Whether files that are merged from a bucket go to another one. -/
def Table.Strays (t : Table) (e : Entry) : Prop :=
  ¬ t.mode.isAssigned ∧ (e.bucket ≠ 0 ∨ ∃ mark, mark ≠ 0 ∧ some (.unordered mark) ∈ e.partition.keys)

/-- Whether a file is one of a task. -/
def WorkUnit.Lists (x : DataFile) : WorkUnit → Prop
  | .bucket _ _ => False
  | .task version payload => ∃ depth task, Task.decode depth version payload = .ok task ∧ x ∈ task.files

/-- Whether a job has chosen a file so far: it is one of its tasks, or one of its fragments replaces it. -/
def Job.Chose (j : Job) (x : DataFile) : Prop := (∃ u ∈ j.units, u.Lists x) ∨ ∃ f ∈ j.fragments, x ∈ f.before

namespace World

/-- Whether the `i`-th job has chosen a file. -/
def Chose (w : World) (i : Nat) (x : DataFile) : Prop := ∃ j, w.jobs[i]? = some j ∧ j.Chose x

/-- Whether a move that does not end the `i`-th job takes away a live file that the job has chosen. -/
structure Deprives (t : Table) (w : World) (i : Nat) (m : Move) (x : DataFile) : Prop where
  others : ¬ m.Ends i
  chosen : w.Chose i x
  live : x ∈ w.storage.manifest.files
  gone : x ∉ (w.move t m).storage.manifest.files

/-- Whether one of the moves took away a file that the `i`-th job had chosen by then. -/
def Loses (t : Table) (moves : List Move) (i : Nat) (x : DataFile) : Prop :=
  ∃ before m after, moves = before ++ m :: after ∧ (play t {} before).Deprives t i m x

end World

variable {t : Table} {s : Storage} {m : Manifest} {fragments : List Fragment} {w : World} {i : Nat} {j : Job}
variable {x : DataFile} {moves : List Move}

/-! ### Refused fragments -/

private theorem admits_changesOf_iff (h : fragments.Pairwise Fragment.Apart) :
    m.Admits (changesOf fragments) ↔ ∀ f ∈ fragments, ∀ x ∈ f.before, x ∈ m.filesAt f.key := by
  have hsub : (changesOf fragments).Sublist fragments := List.filter_sublist
  constructor
  · intro hadmits f hf x hx
    exact hadmits.live f (mem_changesOf hf hx) x hx
  · intro hlive
    exact ⟨fun f hf => hlive f (hsub.subset hf), h.sublist hsub⟩

/-- Fragments of partitions that are keys, not all of which are admitted: the first that is not is reported as a
conflict, or it is found to have no text while its message is made. -/
private theorem Table.commitFragments_of_not_admits (t : Table) (user : String)
    (hkeys : ∀ f ∈ fragments, f.partition.isKey)
    (h : ¬ s.manifest.Admits (changesOf fragments)) : ∃ f ∈ fragments, ∃ missing, t.commitFragments user fragments s =
      (.error (if f.prints then .conflict user t.name f.partition f.bucket missing
        else .commitBroke (changesOf fragments).length t.name .unprintable), s) := by
  have hchanges : ∀ f ∈ changesOf fragments, f ∈ fragments := fun f hf => (List.mem_filter.1 hf).1
  have hrefuses : t.Refuses user "COMPACT" (changesOf fragments) s :=
    refuses_of_not_admits (fun f hf => hkeys f (hchanges f hf)) h
  obtain ⟨before, f, after, missing, hsplit, -, -, e⟩ := hrefuses
  have hmem : f ∈ changesOf fragments := hsplit ▸ List.mem_append_right _ (List.mem_cons_self ..)
  have hsome : ¬ (fragments.filter (!·.isEmpty)).isEmpty := by
    intro hnone
    have hnil : changesOf fragments = [] := List.isEmpty_iff.1 hnone
    rw [hnil] at hmem
    cases hmem
  refine ⟨f, hchanges f hmem, missing, ?_⟩
  unfold commitFragments
  dsimp only
  have hopen : Committer.commit { user } t (fragments.filter (!·.isEmpty)) s =
      t.apply user "COMPACT" (changesOf fragments) s := rfl
  rw [if_neg hsome, Effect.map_apply, Effect.mapFault_apply, hopen, e]
  by_cases hprints : f.prints
  · simp only [if_pos hprints]
    rfl
  · simp only [if_neg hprints]
    rfl

/-- A commit of fragments of partitions that are keys fails exactly if they are not admitted. -/
private theorem Table.commitFragments_fails_iff (t : Table) (user : String)
    (hkeys : ∀ f ∈ fragments, f.partition.isKey) :
    (∃ fault s', t.commitFragments user fragments s = (.error fault, s')) ↔
      ¬ s.manifest.Admits (changesOf fragments) := by
  constructor
  · rintro ⟨fault, s', e⟩ hadmits
    rcases t.commitFragments_cases user fragments s with ⟨hrefused, -⟩ | ⟨-, e'⟩ | ⟨-, -, e'⟩
    · exact hrefused ⟨fun f hf => hkeys f (List.mem_filter.1 hf).1, hadmits⟩
    · rw [e] at e'
      cases e'
    · rw [e] at e'
      cases e'
  · intro hrefused
    obtain ⟨f, -, missing, e⟩ := t.commitFragments_of_not_admits user hkeys hrefused
    exact ⟨_, s, e⟩

private theorem Table.strays_iff {e : Entry} : t.Strays e ↔ t.mergedKey e.key ≠ e.key := by
  rw [Ne, mergedKey_eq_iff, Strays, not_or, not_and_or]
  simp [Entry.key, and_comm]

/-- A file that a fragment replaces is not found exactly if it is live no more, or in a bucket that strays. -/
private theorem Fragment.Rooted.not_found_iff {f : Fragment} (h : f.Rooted t w) (hw : w.Sound t) (hx : x ∈ f.before) :
    x ∉ w.storage.manifest.filesAt f.key ↔
      x ∉ w.storage.manifest.files ∨ ∃ e ∈ w.storage.manifest, x ∈ e.files ∧ t.Strays e := by
  obtain ⟨key, hconfines, hk⟩ := h.origin x hx
  have hkey : ∀ e ∈ w.storage.manifest, x ∈ e.files → f.key = t.mergedKey e.key := fun e he hxe => by
    rw [hk, hconfines.storage.key he hxe]
  rw [Manifest.mem_filesAt_iff hw.storage.manifest.keys]
  constructor
  · intro hmissing
    by_cases hlive : x ∈ w.storage.manifest.files
    · obtain ⟨e, he, hxe⟩ := Manifest.mem_files.1 hlive
      refine Or.inr ⟨e, he, hxe, Table.strays_iff.2 fun hsame => hmissing ⟨e, he, ?_, hxe⟩⟩
      rw [hkey e he hxe, hsame]
    · exact Or.inl hlive
  · rintro (hgone | ⟨e, he, hxe, hstrays⟩) ⟨e', he', hk', hxe'⟩
    · exact hgone (Manifest.mem_files.2 ⟨e', he', hxe'⟩)
    · -- a live file is in one bucket only
      obtain rfl := Manifest.eq_of_mem_files hw.storage.manifest.nodup he he' hxe hxe'
      exact Table.strays_iff.1 hstrays ((hkey e he hxe).symm.trans hk'.symm)

/-! ### Chosen files -/

theorem WorkUnit.Makes.lists {version : Int} {payload : List UInt8} {f : Fragment}
    (h : (WorkUnit.task version payload).Makes m f) (hx : x ∈ f.before) : (WorkUnit.task version payload).Lists x := by
  obtain ⟨depth, task, hdecode, -, -, hbefore⟩ := h
  exact ⟨depth, task, hdecode, hbefore ▸ hx⟩

/-- The tasks of a plan are for live files. -/
private theorem live_of_plan {r : Request} {units : List WorkUnit} (h : t.plan s r = .ok units) :
    ∀ u ∈ units, ∀ x, u.Lists x → x ∈ s.manifest.files := by
  intro u hu x hx
  rcases Table.plan_cases h with ⟨-, entries, -, rfl⟩ | ⟨-, tasks, hsupplies, h⟩
  · obtain ⟨e, -, rfl⟩ := List.mem_map.1 hu
    cases hx
  · obtain ⟨task, htask, henc⟩ := Except.exists_of_mapM_eq_ok h hu
    obtain ⟨version, payload, rfl, hdecode⟩ := Table.encodeTask_eq_ok henc
    obtain ⟨depth, found, hfound, hx⟩ := hx
    rw [hdecode depth] at hfound
    cases hfound
    obtain ⟨e, he, -, hfiles⟩ := hsupplies.bucket task htask
    exact Manifest.mem_files.2 ⟨e, he, hfiles.subset hx⟩

namespace World

/-- What a job has chosen after a move it had chosen before, or it is live. -/
private theorem chose_move {m : Move} (h : (w.move t m).Chose i x) :
    (w.Chose i x ∧ ¬ m.Ends i) ∨ x ∈ (w.move t m).storage.manifest.files := by
  obtain ⟨j, hj, hx⟩ := h
  cases follows_move hj with
  | same hm hj₀ => exact Or.inl ⟨⟨j, hj₀, hx⟩, hm⟩
  | ended hm => simp [Job.Chose] at hx
  | @begun options request units hplan =>
    have hsame := w.storage_plan (t.handle options) request
    obtain ⟨u, hu, hx⟩ : ∃ u ∈ units, u.Lists x := by simpa [Job.Chose] using hx
    rw [move, step, hsame]
    exact Or.inr (live_of_plan hplan u hu x hx)
  | @grown options unit place full j u fs s hj₀ hu hmade =>
    rcases hx with hx | ⟨f, hf, hx⟩
    · exact Or.inl ⟨⟨j, hj₀, .inl hx⟩, id⟩
    · rcases List.mem_append.1 ((perm_insert j place fs).mem_iff.1 hf) with hf | hf
      · have hmakes := (compactUnit_makes hmade).2 f hf
        cases u with
        | bucket p bucket =>
          -- the files of a bucket are chosen by this move, which takes none away
          obtain ⟨-, -, hbefore⟩ := hmakes
          obtain ⟨e, he, -, hxe⟩ := hbefore x hx
          have hsame := w.manifest_compact (t.handle options) i unit full place
          rw [move, step, hsame]
          exact Or.inr (Manifest.mem_files.2 ⟨e, he, hxe⟩)
        | task version payload =>
          -- those of a task were chosen when it was planned
          exact Or.inl ⟨⟨j, hj₀, .inl ⟨_, List.mem_of_getElem? hu, hmakes.lists hx⟩⟩, id⟩
      · exact Or.inl ⟨⟨j, hj₀, .inr ⟨f, hf, hx⟩⟩, id⟩

/-- A file that a job has chosen is live, or it was taken away since. -/
private theorem live_or_loses (h : (play t {} moves).Chose i x) :
    x ∈ (play t {} moves).storage.manifest.files ∨ Loses t moves i x := by
  induction moves using List.reverseRecOn with
  | nil =>
    obtain ⟨j, hj, -⟩ := h
    simp [play] at hj
  | append_singleton moves m ih =>
    rw [play_append] at h ⊢
    rcases chose_move h with ⟨hchosen, hm⟩ | hlive
    · rcases ih hchosen with hbefore | ⟨before, m', after, rfl, hdeprives⟩
      · by_cases hafter : x ∈ ((play t {} moves).move t m).storage.manifest.files
        · exact Or.inl hafter
        · exact Or.inr ⟨moves, m, [], rfl, hm, hchosen, hbefore, hafter⟩
      · exact Or.inr ⟨before, m', after ++ [m], by simp, hdeprives⟩
    · exact Or.inl hlive

/-- A file that was taken away is not live again. -/
private theorem Loses.not_live (h : Loses t moves i x) : x ∉ (play t {} moves).storage.manifest.files := by
  obtain ⟨before, m, after, rfl, hdeprives⟩ := h
  have hw : (play t {} before).Reached t := Reached.start.play before
  obtain ⟨e, he, hx⟩ := Manifest.mem_files.1 hdeprives.live
  have hgone := ((hw.sound.confines he hx).move hw.sound m).gone hdeprives.gone
  rw [play_append]
  exact (hgone.play (hw.move m) after).storage.not_mem

/-! ### Commits -/

/-- Files are taken away by commits of other jobs and by overwriting only. -/
theorem deprives_cases {m : Move} (hw : w.Reached t) (h : w.Deprives t i m x) :
    (∃ options job user, m = .event (.commit options job user) ∧ job ≠ i) ∨
      ∃ options rows strategy columns, m = .overwrite options rows strategy columns := by
  have hgone := h.gone
  cases m with
  | overwrite options rows strategy columns => exact Or.inr ⟨options, rows, strategy, columns, rfl⟩
  | event e =>
    cases e with
    | append options rows bucket user =>
      have happend := w.storage_append (t.handle options) rows bucket user
      rw [move, step, happend] at hgone
      rcases (t.handle options).append_cases (hw.sound.storage.handle options) rows bucket user with
        ⟨fault, s', files, e, hw'⟩ | ⟨-, e⟩ | ⟨id, s', e, hpub⟩
      · rw [e, hw'.manifest] at hgone
        exact absurd h.live hgone
      · rw [e] at hgone
        exact absurd h.live hgone
      · rw [e] at hgone
        obtain ⟨new, hfiles, -, -⟩ := hpub.files
        exact absurd (hfiles.mem_iff.2 (List.mem_append_left _ h.live)) hgone
    | plan options request =>
      have hsame := w.storage_plan (t.handle options) request
      rw [move, step, hsame] at hgone
      exact absurd h.live hgone
    | compact options job unit full place =>
      have hsame := w.manifest_compact (t.handle options) job unit full place
      rw [move, step, hsame] at hgone
      exact absurd h.live hgone
    | commit options job user => exact Or.inl ⟨options, job, user, rfl, h.others⟩
    | abandon job => exact absurd h.live hgone

/-- The commit of a job whose units were compacted once at most fails exactly if a file that it replaces was taken away
after the job had chosen it, or is live in a bucket that merged files do not go back to. It changes nothing then and
reports a conflict, or that the commit broke over the number of a bucket, which has no text. -/
theorem commit_conflicts_iff (hj : (play t {} moves).jobs[i]? = some j)
    (honce : (moves.filterMap (Move.unitOf i)).Nodup) (options : List (String × String)) (user : String) :
    let s := (play t {} moves).storage
    ((∃ fault s', (t.handle options).commitFragments user j.fragments s = (.error fault, s')) ↔
      ∃ f ∈ j.fragments, ∃ x ∈ f.before, Loses t moves i x ∨ ∃ e ∈ s.manifest, x ∈ e.files ∧ t.Strays e) ∧
    ∀ fault s', (t.handle options).commitFragments user j.fragments s = (.error fault, s') →
      s' = s ∧ ((∃ p bucket missing, fault = .conflict user t.name p bucket missing) ∨
        fault = .commitBroke (changesOf j.fragments).length t.name .unprintable ∧
          ∃ f ∈ j.fragments, ¬ Number.prints f.bucket) := by
  intro s
  have hw : (play t {} moves).Reached t := Reached.start.play moves
  have htraced := traced_play t moves i j hj
  have hrooted := htraced.rooted_fragment
  have hkeys : ∀ f ∈ j.fragments, f.partition.isKey := fun f hf => (hrooted f hf).isKey
  have hfails := (t.handle options).commitFragments_fails_iff (s := s) user hkeys
  constructor
  · rw [hfails, admits_changesOf_iff (htraced.apart_fragments honce)]
    constructor
    · intro hrefused
      simp only [not_forall] at hrefused
      obtain ⟨f, hf, x, hx, hmissing⟩ := hrefused
      refine ⟨f, hf, x, hx, ?_⟩
      rcases ((hrooted f hf).not_found_iff hw.sound hx).1 hmissing with hgone | hstrays
      · exact Or.inl ((live_or_loses ⟨j, hj, .inr ⟨f, hf, hx⟩⟩).resolve_left hgone)
      · exact Or.inr hstrays
    · rintro ⟨f, hf, x, hx, hcause⟩ hfound
      refine ((hrooted f hf).not_found_iff hw.sound hx).2 ?_ (hfound f hf x hx)
      exact hcause.imp_left Loses.not_live
  · intro fault s' e
    obtain ⟨f, hf, missing, e'⟩ := (t.handle options).commitFragments_of_not_admits user hkeys (hfails.1 ⟨fault, s', e⟩)
    rw [e, Prod.mk.injEq, Except.error.injEq] at e'
    refine ⟨e'.2, ?_⟩
    by_cases hprints : f.prints
    · exact .inl ⟨f.partition, f.bucket, missing, e'.1.trans (if_pos hprints)⟩
    · refine .inr ⟨e'.1.trans (if_neg hprints), f, hf, fun hbucket => hprints ?_⟩
      rw [Fragment.prints, (hrooted f hf).printed, hbucket]
      rfl

/-- A table without assigned buckets, with two files in bucket 3: merging them conflicts although no file was taken
away. -/
theorem commit_conflicts_of_bucket :
    let t : Table := ⟨"t", [], .unaware, 1, [], Table.override Table.defaultOptions [("compaction.min.file-num", "2")]⟩
    let append (n : Int) : Move := .event (.append t.options [[("v", .int n)]] (some 3) "u")
    let moves := [append 1, append 2, .event (.plan t.options {}), .event (.compact t.options 0 0 true 0)]
    let s := (play t {} moves).storage
    (∃ j, (play t {} moves).jobs[0]? = some j ∧
      ∃ p bucket missing, t.commitFragments "c" j.fragments s = (.error (.conflict "c" "t" p bucket missing), s)) ∧
    ∀ x, ¬ Loses t moves 0 x := by
  intro t append moves s
  have honce : (moves.filterMap (Move.unitOf 0)).Nodup := by decide
  constructor
  · have hstrays : ∀ j ∈ (play t {} moves).jobs[0]?, ∃ f ∈ j.fragments, ∃ x ∈ f.before,
        ∃ e ∈ s.manifest, x ∈ e.files ∧ e.bucket ≠ 0 := by decide +kernel
    obtain ⟨j, hj⟩ : ∃ j, (play t {} moves).jobs[0]? = some j := Option.isSome_iff_exists.1 (by decide +kernel)
    obtain ⟨f, hf, x, hx, e, he, hxe, hbucket⟩ := hstrays j hj
    have hcommit := commit_conflicts_iff hj honce t.options "c"
    obtain ⟨fault, s', hfails⟩ := hcommit.1.2 ⟨f, hf, x, hx, Or.inr ⟨e, he, hxe, by decide, Or.inl hbucket⟩⟩
    obtain ⟨rfl, ⟨p, bucket, missing, rfl⟩ | ⟨-, f, hf, hnumber⟩⟩ := hcommit.2 fault s' hfails
    · exact ⟨j, hj, p, bucket, missing, hfails⟩
    · have hshown : ∀ j ∈ (play t {} moves).jobs[0]?, ∀ f ∈ j.fragments, Number.prints f.bucket := by decide +kernel
      exact absurd (hshown j hj f hf) hnumber
  · rintro x ⟨before, m, after, hmoves, hdeprives⟩
    have hm : m ∈ moves := hmoves ▸ List.mem_append_right _ (List.mem_cons_self ..)
    rcases deprives_cases (Reached.start.play before) hdeprives with
      ⟨options, job, user, rfl, -⟩ | ⟨options, rows, strategy, columns, rfl⟩
    · simp [moves, append] at hm
    · simp [moves, append] at hm

end World

end Compaction
