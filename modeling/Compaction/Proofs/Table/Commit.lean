import Compaction.Proofs.Effect
import Compaction.Proofs.Table.Manifest
import Compaction.Table.Commit

/-!
# Commits as unions of fragments

A commit succeeds exactly if its fragments are admitted: what they replace is live, and no two of them replace the
same file of a bucket (`Admits`). Then each bucket holds what none of them replaces and what they bring, in whatever
order they come (`filesAfter`, `Admits.perm`, `filesAfter_perm`); otherwise nothing happens, and the first fragment that
is not admitted with those before it is reported (`applyTo_of_not_admits`).

The first pass takes files out of the manifest that later fragments are checked against, so being admitted is shown
to pass from a list of fragments to its rest after the first one is taken (`admits_cons`).
-/

namespace Compaction

/-- The storage with one more snapshot. -/
def Storage.withSnapshot (s : Storage) (user kind : String) (m : Manifest) : Storage :=
  { s with snapshots := s.snapshots ++ [⟨s.snapshots.length + 1, user, kind, m⟩] }

/-- The bucket that a fragment changes. -/
def Fragment.key (f : Fragment) : BucketKey := (f.partition.keys, f.bucket)

/-- The files that a fragment brings: merged ones first. -/
def Fragment.brought (f : Fragment) : List DataFile := f.after ++ f.added

/-- Whether the bucket that a fragment changes can be shown. -/
def Fragment.prints (f : Fragment) : Bool := f.partition.prints && Number.prints f.bucket

namespace Manifest

/-- The manifest without the files that a fragment replaces. -/
def take (m : Manifest) (f : Fragment) : Manifest :=
  m.put f.partition f.bucket ((m.filesAt f.key).filter (!f.before.contains ·))

/-- The names of the files that a fragment replaces and that are not there. -/
def missing (m : Manifest) (f : Fragment) : List FileName :=
  (f.before.filter (!(m.filesAt f.key).contains ·)).map DataFile.name

/-- Whether the fragments can be committed together: all that they replace is live, and no two of them replace the
same file of a bucket. -/
structure Admits (m : Manifest) (fragments : List Fragment) : Prop where
  live : ∀ f ∈ fragments, ∀ x ∈ f.before, x ∈ m.filesAt f.key
  apart : fragments.Pairwise fun f g => f.key = g.key → ∀ x ∈ f.before, x ∉ g.before

/-- The files of a bucket that none of the fragments replaces. -/
def filesKept (m : Manifest) (fragments : List Fragment) (key : BucketKey) : List DataFile :=
  (m.filesAt key).filter fun x => fragments.all fun f => f.key ≠ key ∨ x ∉ f.before

/-- The files of a bucket after the fragments: those that none of them replaces, and what they bring. -/
def filesAfter (m : Manifest) (fragments : List Fragment) (key : BucketKey) : List DataFile :=
  m.filesKept fragments key ++ (fragments.filter (·.key = key)).flatMap Fragment.brought

/-- The manifest once the fragments have taken what they replace and added what they bring. -/
def committed (m : Manifest) (fragments : List Fragment) : Manifest :=
  filled (fragments.foldl Table.addAfter (fragments.foldl take m))

variable {m : Manifest} {f : Fragment} {fragments fragments' : List Fragment}

/-! ### Taking and adding -/

private theorem filesAt_take (m : Manifest) (f : Fragment) (key : BucketKey) :
    (m.take f).filesAt key = (m.filesAt key).filter fun x => f.key ≠ key ∨ x ∉ f.before := by
  by_cases h : f.key = key
  · subst h
    have : (m.take f).filesAt f.key = (m.filesAt f.key).filter (!f.before.contains ·) := filesAt_put_self ..
    simp [this]
  · have : (m.take f).filesAt key = m.filesAt key := filesAt_put_of_ne (Ne.symm h)
    simp [this, h]

private theorem filesAt_foldl_take (fragments : List Fragment) (key : BucketKey) :
    ∀ m : Manifest, (fragments.foldl take m).filesAt key = m.filesKept fragments key := by
  induction fragments with
  | nil => intro m; simp [filesKept]
  | cons f rest ih =>
    intro m
    rw [List.foldl_cons, ih, filesKept, filesAt_take, List.filter_filter, filesKept]
    simp only [List.all_cons, Bool.and_comm]

private theorem filesAt_addAfter (m : Manifest) (f : Fragment) (key : BucketKey) :
    (Table.addAfter m f).filesAt key = m.filesAt key ++ if f.key = key then f.brought else [] := by
  by_cases h : f.key = key
  · subst h
    have : (Table.addAfter m f).filesAt f.key = m.filesAt f.key ++ f.after ++ f.added := filesAt_put_self ..
    simp [this, Fragment.brought]
  · have : (Table.addAfter m f).filesAt key = m.filesAt key := filesAt_put_of_ne (Ne.symm h)
    simp [this, h]

private theorem filesAt_foldl_addAfter (fragments : List Fragment) (key : BucketKey) :
    ∀ m : Manifest, (fragments.foldl Table.addAfter m).filesAt key =
      m.filesAt key ++ (fragments.filter (·.key = key)).flatMap Fragment.brought := by
  induction fragments with
  | nil => intro m; simp
  | cons f rest ih =>
    intro m
    rw [List.foldl_cons, ih, filesAt_addAfter, List.append_assoc]
    by_cases h : f.key = key <;> simp [h]

/-! ### Admitted fragments -/

/-- A fragment is admitted with others if it replaces live files, and the others are admitted once it has taken
them. -/
theorem admits_cons :
    m.Admits (f :: fragments) ↔ (∀ x ∈ f.before, x ∈ m.filesAt f.key) ∧ (m.take f).Admits fragments := by
  constructor
  · intro h
    have hp := List.pairwise_cons.1 h.apart
    refine ⟨h.live f (by simp), ⟨fun g hg x hx => ?_, hp.2⟩⟩
    rw [filesAt_take, List.mem_filter]
    refine ⟨h.live g (List.mem_cons_of_mem _ hg) x hx, ?_⟩
    by_cases hk : f.key = g.key
    · have : x ∉ f.before := fun hf => hp.1 g hg hk x hf hx
      simp [this]
    · simp [hk]
  · rintro ⟨hlive, h⟩
    -- what the others replace was there before, and the first one did not take it
    have hmem : ∀ g ∈ fragments, ∀ x ∈ g.before, x ∈ m.filesAt g.key ∧ (f.key ≠ g.key ∨ x ∉ f.before) := by
      intro g hg x hx
      have := h.live g hg x hx
      rw [filesAt_take, List.mem_filter, decide_eq_true_iff] at this
      exact this
    refine ⟨fun g hg x hx => ?_, List.pairwise_cons.2 ⟨fun g hg hk x hf hx => ?_, h.apart⟩⟩
    · rcases List.mem_cons.1 hg with rfl | hg
      · exact hlive x hx
      · exact (hmem g hg x hx).1
    · rcases (hmem g hg x hx).2 with hne | hx'
      · exact hne hk
      · exact hx' hf

theorem admits_of_before_eq_nil (h : ∀ f ∈ fragments, f.before = []) : m.Admits fragments := by
  induction fragments generalizing m with
  | nil => exact ⟨by simp, List.Pairwise.nil⟩
  | cons f rest ih =>
    rw [List.forall_mem_cons] at h
    exact admits_cons.2 ⟨by simp [h.1], ih h.2⟩

private theorem admits_nil : m.Admits [] := ⟨by simp, List.Pairwise.nil⟩

theorem Admits.perm (h : m.Admits fragments) (hp : fragments.Perm fragments') : m.Admits fragments' := by
  refine ⟨fun f hf => h.live f (hp.mem_iff.2 hf), hp.pairwise h.apart ?_⟩
  intro f g hfg hk x hx hx'
  exact hfg hk.symm x hx' hx

theorem filesKept_perm (hp : fragments.Perm fragments') (key : BucketKey) :
    m.filesKept fragments key = m.filesKept fragments' key :=
  List.filter_congr fun _ _ => hp.all_eq

theorem filesAfter_perm (hp : fragments.Perm fragments') (key : BucketKey) :
    (m.filesAfter fragments key).Perm (m.filesAfter fragments' key) := by
  unfold filesAfter
  rw [filesKept_perm hp]
  exact ((hp.filter _).flatMap_right _).append_left _

theorem filesAfter_of_untouched {key : BucketKey} (h : ∀ f ∈ fragments, f.key ≠ key) :
    m.filesAfter fragments key = m.filesAt key := by
  have hkept : m.filesKept fragments key = m.filesAt key := by
    rw [filesKept, List.filter_eq_self]
    intro x _
    rw [List.all_eq_true]
    intro f hf
    simp [h f hf]
  have hnone : fragments.filter (·.key = key) = [] := by
    rw [List.filter_eq_nil_iff]
    intro f hf
    simp [h f hf]
  simp [filesAfter, hkept, hnone]

/-! ### What a commit leads to -/

private theorem nodup_keys_foldl (h : (m.map Entry.key).Nodup) :
    ((fragments.foldl Table.addAfter (fragments.foldl take m)).map Entry.key).Nodup := by
  refine List.foldlRecOn (motive := fun m : Manifest => (m.map Entry.key).Nodup) fragments _
    (List.foldlRecOn (motive := fun m : Manifest => (m.map Entry.key).Nodup) fragments _ h ?_) ?_
  · intro m hm f _
    exact nodup_keys_put hm ..
  · intro m hm f _
    exact nodup_keys_put hm ..

theorem nodup_keys_committed (h : (m.map Entry.key).Nodup) : ((m.committed fragments).map Entry.key).Nodup :=
  nodup_keys_filled (nodup_keys_foldl h)

theorem filesAt_committed (h : (m.map Entry.key).Nodup) (key : BucketKey) :
    (m.committed fragments).filesAt key = m.filesAfter fragments key := by
  rw [committed, filesAt_filled (nodup_keys_foldl h), filesAt_foldl_addAfter, filesAt_foldl_take]
  rfl

theorem Each.committed {P : BucketKey → DataFile → Prop} (h : m.Each P)
    (hf : ∀ f ∈ fragments, ∀ x ∈ f.brought, P f.key x) : (m.committed fragments).Each P := by
  refine Each.sublist ?_ List.filter_sublist
  refine List.foldlRecOn fragments _ (List.foldlRecOn fragments _ h ?_) ?_
  · intro m hm f _
    refine hm.put fun x hx => ?_
    exact hm.filesAt f.key x (List.mem_filter.1 hx).1
  · intro m hm f hmem
    refine hm.put fun x hx => ?_
    rw [List.append_assoc, List.mem_append] at hx
    rcases hx with hx | hx
    · exact hm.filesAt f.key x hx
    · exact hf f hmem x hx

private theorem perm_before_append {live before : List DataFile} (hl : live.Nodup) (hb : before.Nodup)
    (h : ∀ x ∈ before, x ∈ live) : live.Perm (before ++ live.filter (!before.contains ·)) := by
  have htaken : (live.filter (before.contains ·)).Perm before := by
    rw [List.perm_ext_iff_of_nodup (hl.filter _) hb]
    intro x
    simpa using h x
  exact (List.filter_append_perm (before.contains ·) live).symm.trans (htaken.append_right _)

/-- Taking exchanges files with those that are replaced. -/
private theorem files_take (hm : m.files.Nodup) (hb : f.before.Nodup) (h : ∀ x ∈ f.before, x ∈ m.filesAt f.key) :
    m.files.Perm (f.before ++ (m.take f).files) := by
  obtain ⟨others, hfiles, hput⟩ := files_put m f.partition f.bucket
  have hlive : (m.filesAt f.key).Nodup := (List.nodup_append.1 (hfiles.nodup_iff.1 hm)).1
  refine hfiles.trans (((perm_before_append hlive hb h).append_right others).trans ?_)
  rw [List.append_assoc]
  exact (hput _).symm.append_left _

private theorem files_foldl_take (hm : m.files.Nodup) (hb : ∀ f ∈ fragments, f.before.Nodup) (h : m.Admits fragments) :
    m.files.Perm (fragments.flatMap Fragment.before ++ (fragments.foldl take m).files) := by
  -- by induction on the fragments: the first one leaves a manifest that admits the others
  induction fragments generalizing m with
  | nil => exact .refl _
  | cons f rest ih =>
    rw [List.forall_mem_cons] at hb
    obtain ⟨hlive, hrest⟩ := admits_cons.1 h
    have hf := files_take hm hb.1 hlive
    have htaken : (m.take f).files.Nodup := (List.nodup_append.1 (hf.nodup_iff.1 hm)).2.1
    rw [List.flatMap_cons, List.append_assoc]
    exact hf.trans ((ih htaken hb.2 hrest).append_left _)

private theorem files_foldl_addAfter (fragments : List Fragment) :
    ∀ m : Manifest, (fragments.foldl Table.addAfter m).files.Perm (m.files ++ fragments.flatMap Fragment.brought) := by
  induction fragments with
  | nil => intro m; simp
  | cons f rest ih =>
    intro m
    obtain ⟨others, hfiles, hput⟩ := files_put m f.partition f.bucket
    -- one fragment adds just what it brings
    have hf : (Table.addAfter m f).files.Perm (m.files ++ f.brought) := by
      refine (hput _).trans (List.Perm.trans ?_ (hfiles.symm.append_right f.brought))
      rw [List.append_assoc (m.filesAt _), List.append_assoc (m.filesAt _), List.append_assoc (m.filesAt _)]
      exact List.perm_append_comm.append_left _
    rw [List.foldl_cons, List.flatMap_cons, ← List.append_assoc]
    exact (ih _).trans (hf.append_right _)

/-- A commit exchanges the files that its fragments replace for those that they bring, and no others. -/
theorem files_committed (hm : m.files.Nodup) (hb : ∀ f ∈ fragments, f.before.Nodup) (h : m.Admits fragments) :
    (m.files ++ fragments.flatMap Fragment.brought).Perm
      (fragments.flatMap Fragment.before ++ (m.committed fragments).files) := by
  rw [committed, files_filled]
  refine ((files_foldl_take hm hb h).append_right _).trans ?_
  rw [List.append_assoc]
  exact (files_foldl_addAfter fragments _).symm.append_left _

end Manifest

namespace Table

variable {m : Manifest} {f : Fragment} {fragments : List Fragment}

private theorem takeBefore_eq_ok {t : Table} {user : String} {m' : Manifest} : t.takeBefore user m f = .ok m' ↔
    f.partition.isKey ∧ (∀ x ∈ f.before, x ∈ m.filesAt f.key) ∧ m.take f = m' := by
  unfold takeBefore Fragment.key
  by_cases hk : f.partition.isKey
  · by_cases hl : ∀ x ∈ f.before, x ∈ m.filesAt (f.partition.keys, f.bucket)
    · simp [hk, iff_true_intro hl, Manifest.take, Fragment.key]
    · simp [hk, iff_false_intro hl]
  · simp [hk, unhashable]

private theorem takeBefore_of_not_live (t : Table) (user : String) (hk : f.partition.isKey)
    (h : ¬ ∀ x ∈ f.before, x ∈ m.filesAt f.key) :
    t.takeBefore user m f = .error (Fault.conflict user t.name f.partition f.bucket (m.missing f)).raised := by
  have hm : (f.before.filter (!(m.filesAt (f.partition.keys, f.bucket)).contains ·)).isEmpty = false := by
    rw [List.isEmpty_eq_false_iff]
    intro he
    rw [List.filter_eq_nil_iff] at he
    apply h
    intro x hx
    have := he x hx
    rw [Bool.not_eq_true', Bool.not_eq_false, List.contains_iff_mem] at this
    exact this
  unfold takeBefore
  simp only [hk, Bool.not_true, Bool.false_eq_true, if_false, hm]
  rfl

private theorem foldlM_takeBefore_eq_ok {t : Table} {user : String} {m' : Manifest} :
    fragments.foldlM (t.takeBefore user) m = .ok m' ↔
      (∀ f ∈ fragments, f.partition.isKey) ∧ m.Admits fragments ∧ fragments.foldl Manifest.take m = m' := by
  induction fragments generalizing m with
  | nil => simp [Manifest.admits_nil, pure, Except.pure]
  | cons f rest ih =>
    rw [List.foldlM_cons, Except.bind_eq_ok, List.forall_mem_cons, Manifest.admits_cons]
    constructor
    · rintro ⟨m₁, hf, hrest⟩
      obtain ⟨hk, hlive, rfl⟩ := takeBefore_eq_ok.1 hf
      obtain ⟨hks, hr, rfl⟩ := ih.1 hrest
      exact ⟨⟨hk, hks⟩, ⟨hlive, hr⟩, rfl⟩
    · rintro ⟨⟨hk, hks⟩, ⟨hlive, hr⟩, rfl⟩
      exact ⟨m.take f, takeBefore_eq_ok.2 ⟨hk, hlive, rfl⟩, ih.2 ⟨hks, hr, rfl⟩⟩

private theorem foldlM_takeBefore_of_not_admits (t : Table) (user : String) (hk : ∀ f ∈ fragments, f.partition.isKey)
    (h : ¬ m.Admits fragments) : ∃ before f after missing, fragments = before ++ f :: after ∧ m.Admits before ∧
      ¬ m.Admits (before ++ [f]) ∧ fragments.foldlM (t.takeBefore user) m =
        .error (Fault.conflict user t.name f.partition f.bucket missing).raised := by
  induction fragments generalizing m with
  | nil => exact absurd Manifest.admits_nil h
  | cons f rest ih =>
    have hf := hk f (by simp)
    rw [List.foldlM_cons]
    by_cases hlive : ∀ x ∈ f.before, x ∈ m.filesAt f.key
    · rw [takeBefore_eq_ok.2 ⟨hf, hlive, rfl⟩]
      have hrest : ¬ (m.take f).Admits rest := fun hr => h (Manifest.admits_cons.2 ⟨hlive, hr⟩)
      obtain ⟨before, g, after, missing, rfl, hbefore, hg, e⟩ :=
        ih (fun g hg => hk g (List.mem_cons_of_mem _ hg)) hrest
      refine ⟨f :: before, g, after, missing, rfl, Manifest.admits_cons.2 ⟨hlive, hbefore⟩, fun hall => ?_, e⟩
      exact hg (Manifest.admits_cons.1 hall).2
    · refine ⟨[], f, rest, m.missing f, rfl, Manifest.admits_nil, fun hall => ?_, ?_⟩
      · exact hlive (Manifest.admits_cons.1 hall).1
      · rw [takeBefore_of_not_live t user hf hlive]
        rfl

/-- The first fragment that is not admitted with those before it is reported, if it can be shown. -/
theorem applyTo_of_not_admits (t : Table) (user : String) (hk : ∀ f ∈ fragments, f.partition.isKey)
    (h : ¬ m.Admits fragments) : ∃ before f after missing, fragments = before ++ f :: after ∧ m.Admits before ∧
      ¬ m.Admits (before ++ [f]) ∧ t.applyTo user m fragments =
        .error (if f.prints then .conflict user t.name f.partition f.bucket missing else .unprintable) := by
  obtain ⟨before, f, after, missing, hsplit, hbefore, hf, e⟩ := foldlM_takeBefore_of_not_admits t user hk h
  refine ⟨before, f, after, missing, hsplit, hbefore, hf, ?_⟩
  rw [applyTo, e]
  rfl

/-- A commit fails and changes nothing, or its fragments are admitted and it adds the snapshot that they lead to. -/
theorem apply_cases (t : Table) (user kind : String) (fragments : List Fragment) (s : Storage) :
    (∃ fault, t.applyTo user s.manifest fragments = .error fault ∧
      t.apply user kind fragments s = (.error fault, s)) ∨
    (∀ f ∈ fragments, f.partition.isKey) ∧ s.manifest.Admits fragments ∧
      t.apply user kind fragments s =
        (.ok (s.snapshots.length + 1), s.withSnapshot user kind (s.manifest.committed fragments)) := by
  cases h : t.applyTo user s.manifest fragments with
  | error fault =>
    refine Or.inl ⟨fault, rfl, ?_⟩
    rw [apply, Effect.ofRead_bind, h]
  | ok m =>
    obtain ⟨taken, htaken, hm⟩ := Except.bind_eq_ok.1 h
    cases hm
    obtain ⟨hk, hadmits, rfl⟩ := foldlM_takeBefore_eq_ok.1 htaken
    refine Or.inr ⟨hk, hadmits, ?_⟩
    rw [apply, Effect.ofRead_bind, h]
    rfl

theorem apply_of_admits (t : Table) (user kind : String) {s : Storage} (hk : ∀ f ∈ fragments, f.partition.isKey)
    (h : s.manifest.Admits fragments) : t.apply user kind fragments s =
      (.ok (s.snapshots.length + 1), s.withSnapshot user kind (s.manifest.committed fragments)) := by
  rcases t.apply_cases user kind fragments s with ⟨fault, hfault, -⟩ | ⟨-, -, hc⟩
  · rw [applyTo, foldlM_takeBefore_eq_ok.2 ⟨hk, h, rfl⟩] at hfault
    cases hfault
  · exact hc

end Table

end Compaction
