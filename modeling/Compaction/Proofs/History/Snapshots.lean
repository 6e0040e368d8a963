import Compaction.Proofs.History.Moves
import Compaction.Proofs.Table.Created

/-!
# Snapshots are kept

Whatever is done with a table, its snapshots are numbered in order, each lists no bucket without files and no name
twice, and the rows of all files that it lists are stored, as many as each file tells. No file gets a name that was
used before, and no snapshot and no row that is stored ever changes (`play_keeps`).

The files that matter for later snapshots are those that are live or wait to become so (`World.known`). Each move
creates some new ones under new names and makes no others known (`Develops`), so files that are known are told apart by
their names (`Intact.named`).
-/

namespace Compaction

/-- Whether a snapshot lists no bucket without files and no name twice, and as many rows are stored of each file as it
tells. -/
structure Snapshot.Intact (s : Storage) (snapshot : Snapshot) : Prop where
  nonempty : ∀ e ∈ snapshot.manifest, e.files ≠ []
  names : (snapshot.manifest.files.map DataFile.name).Nodup
  holds : ∀ f ∈ snapshot.manifest.files, s.Holds f

variable {t : Table} {s s' : Storage} {snapshot : Snapshot}

theorem Snapshot.Intact.extends (h : snapshot.Intact s) (hs : s.Extends s') : snapshot.Intact s' :=
  ⟨h.nonempty, h.names, fun f hf => (h.holds f hf).extends hs⟩

/-- The files of an intact snapshot can be read, and what is read stays the same. -/
theorem Snapshot.Intact.read (h : snapshot.Intact s) (hs : s.Extends s') : ∃ rows,
    s.read snapshot.manifest.files = .ok rows ∧ s'.read snapshot.manifest.files = .ok rows := by
  have hst : ∀ f ∈ snapshot.manifest.files, s.Stores f := fun f hf => (h.holds f hf).stores
  refine ⟨_, Storage.read_eq_ok.2 ⟨hst, rfl⟩, Storage.read_eq_ok.2 ⟨fun f hf => hs.stores (hst f hf), ?_⟩⟩
  exact hs.flatMap_rowsOf hst

namespace World

/-- The files that are live or wait to become so. -/
def known (w : World) : List DataFile := w.storage.manifest.files ++ w.pending.flatMap Fragment.after

/-- Whether files were created and at most one snapshot was added, and what is known then was known before or is one of
these files. -/
structure Develops (w w' : World) : Prop where
  created : ∃ new, w.storage.Creates w'.storage new ∧ ∀ x ∈ w'.known, x ∈ w.known ∨ x ∈ new
  adds : w.storage.Adds w'.storage

/-- Whether snapshots are numbered in order and intact, and the rows of known files are stored, which are told apart by
their names. -/
structure Intact (w : World) : Prop where
  ids : w.storage.snapshots.map Snapshot.id = List.range' 1 w.storage.snapshots.length
  snapshots : ∀ snapshot ∈ w.storage.snapshots, snapshot.Intact w.storage
  holds : ∀ x ∈ w.known, w.storage.Holds x
  named : ∀ x ∈ w.known, ∀ y ∈ w.known, x.name = y.name → x = y

variable {w w' : World} {brought : List DataFile}

theorem mem_known_of_live {x : DataFile} (hx : x ∈ w.storage.manifest.files) : x ∈ w.known :=
  List.mem_append_left _ hx

private theorem mem_known_of_pending {f : Fragment} (hf : f ∈ w.pending) {x : DataFile} (hx : x ∈ f.after) :
    x ∈ w.known :=
  List.mem_append_right _ (List.mem_flatMap.2 ⟨f, hf, hx⟩)

/-! ### Moves -/

/-- An operation that brings known files and leaves nothing else waiting. -/
private theorem develops_of_storage (h : w.storage.Develops brought w'.storage) (hbrought : ∀ x ∈ brought, x ∈ w.known)
    (hpending : ∀ f ∈ w'.pending, f ∈ w.pending) : w.Develops w' := by
  obtain ⟨new, hcreates, hlive⟩ := h.created
  refine ⟨⟨new, hcreates, fun x hx => ?_⟩, h.adds⟩
  rcases List.mem_append.1 hx with hx | hx
  · rcases hlive x hx with hx | hx | hx
    · exact .inl (mem_known_of_live hx)
    · exact .inl (hbrought x hx)
    · exact .inr hx
  · obtain ⟨f, hf, hx⟩ := List.mem_flatMap.1 hx
    exact .inl (mem_known_of_pending (hpending f hf) hx)

theorem Develops.refl (w : World) : w.Develops w := develops_of_storage (.refl _ []) (by simp) fun _ hf => hf

theorem develops_append (h : w.Sound t) (options : List (String × String)) (rows : List Row) (bucket : Option Int)
    (user : String) : w.Develops (w.append (t.handle options) rows bucket user) := by
  have hstorage : w.storage.Develops [] (w.append (t.handle options) rows bucket user).storage := by
    rw [storage_append]
    exact Table.develops_append h.storage.numbered (t.handle options) rows bucket user
  refine develops_of_storage hstorage (by simp) ?_
  rw [pending, jobs_append]
  exact fun _ hf => hf

private theorem develops_plan (w : World) (t : Table) (request : Request) : w.Develops (w.plan t request) := by
  have hstorage : w.storage.Develops [] (w.plan t request).storage := by
    rw [storage_plan]
    exact .refl _ []
  refine develops_of_storage hstorage (by simp) ?_
  rw [pending_plan]
  exact fun _ hf => hf

private theorem develops_compact (h : w.Sound t) (t' : Table) (job unit : Nat) (full : Bool) (place : Nat) :
    w.Develops (w.compact t' job unit full place) := by
  rcases h.compact_cases t' job unit full place with ⟨s', files, e, hw⟩ | ⟨j, u, fs, s', hj, -, hmade, hc, e⟩
  · rw [e]
    have hstorage : w.storage.Develops [] s' := .of_grows (.of_extends hw.extends_) ⟨hw.extends_, hw.snapshots⟩
    exact develops_of_storage hstorage (by simp) fun _ hf => hf
  · rw [e]
    refine ⟨⟨_, Table.creates_compactUnit h.storage.numbered hmade, fun x hx => ?_⟩, .inl hc.writes.snapshots⟩
    rcases List.mem_append.1 hx with hx | hx
    · rw [hc.writes.manifest] at hx
      exact .inl (mem_known_of_live hx)
    · obtain ⟨f, hf, hx⟩ := List.mem_flatMap.1 hx
      rcases List.mem_append.1 ((pending_insert hj place fs).subset hf) with hf | hf
      · exact .inl (mem_known_of_pending hf hx)
      · exact .inr (List.mem_flatMap.2 ⟨f, hf, hx⟩)

private theorem develops_abandon (w : World) (job : Nat) : w.Develops (w.abandon job) :=
  develops_of_storage (.refl _ []) (by simp) fun _ hf => mem_pending_of_abandon job hf

private theorem develops_commit (h : w.Sound t) (options : List (String × String)) (job : Nat) (user : String) :
    w.Develops (w.commit (t.handle options) job user) := by
  rcases w.commit_cases (t.handle options) job user with e | ⟨j, hj, e⟩
  · rw [e]
    exact .refl w
  · rw [e]
    refine develops_of_storage ((t.handle options).develops_commitFragments user j.fragments w.storage) (fun x hx => ?_)
      fun f hf => mem_pending_of_abandon job hf
    obtain ⟨f, hf, hx⟩ := List.mem_flatMap.1 hx
    rw [(h.merges f (mem_pending hj f hf)).brought] at hx
    exact mem_known_of_pending (mem_pending hj f hf) hx

theorem develops_move (h : w.Sound t) (m : Move) : w.Develops (w.move t m) := by
  cases m with
  | event e =>
    cases e with
    | append options rows bucket user => exact develops_append h options rows bucket user
    | plan options request => exact w.develops_plan (t.handle options) request
    | compact options job unit full place => exact develops_compact h (t.handle options) job unit full place
    | commit options job user => exact develops_commit h options job user
    | abandon job => exact w.develops_abandon job
  | overwrite options rows strategy columns =>
    exact develops_of_storage (Table.develops_writeSorted h.storage.numbered (t.handle options) rows strategy columns)
      (by simp) fun _ hf => hf

/-! ### What moves keep -/

private theorem intact_empty : Intact {} := by
  refine ⟨rfl, by simp, ?_, ?_⟩
  · simp [known, pending, Storage.manifest, Storage.latest?, Manifest.files]
  · simp [known, pending, Storage.manifest, Storage.latest?, Manifest.files]

/-- Names of new files are new, so known files are still told apart by their names. -/
private theorem Intact.develops (h : w.Intact) (hd : w.Develops w') (hsound : w'.Sound t)
    (hproper : w'.storage.manifest.Proper) : w'.Intact := by
  obtain ⟨new, hcreates, hknown⟩ := hd.created
  have hholds : ∀ x ∈ w'.known, w'.storage.Holds x := by
    intro x hx
    rcases hknown x hx with hx | hx
    · exact (h.holds x hx).extends hcreates.extends_
    · exact hcreates.holds x hx
  have hfresh : ∀ x ∈ w.known, ∀ y ∈ new, x.name ≠ y.name := by
    intro x hx y hy hname
    have hst : w.storage.Stores x := (h.holds x hx).stores
    rw [Storage.Stores, hname] at hst
    exact hcreates.fresh y hy hst
  have hnamed : ∀ x ∈ w'.known, ∀ y ∈ w'.known, x.name = y.name → x = y := by
    intro x hx y hy hname
    rcases hknown x hx with hx | hx
    · rcases hknown y hy with hy | hy
      · exact h.named x hx y hy hname
      · exact absurd hname (hfresh x hx y hy)
    · rcases hknown y hy with hy | hy
      · exact absurd hname.symm (hfresh y hy x hx)
      · exact List.inj_on_of_nodup_map hcreates.names hx hy hname
  have hold : ∀ snapshot ∈ w.storage.snapshots, snapshot.Intact w'.storage :=
    fun snapshot hs => (h.snapshots snapshot hs).extends hcreates.extends_
  rcases hd.adds with hsame | ⟨added, hid, hsnapshots⟩
  · refine ⟨?_, ?_, hholds, hnamed⟩
    · rw [hsame]
      exact h.ids
    · rw [hsame]
      exact hold
  · have hmanifest : w'.storage.manifest = added.manifest := by
      simp [Storage.manifest, Storage.latest?, hsnapshots]
    -- the snapshot that was added is the latest one, whose files are known
    have hadded : added.Intact w'.storage := by
      rw [hmanifest] at hproper
      have hlive : ∀ x ∈ added.manifest.files, x ∈ w'.known := fun x hx =>
        mem_known_of_live (hmanifest.symm ▸ hx)
      have hnodup := hsound.storage.manifest.nodup
      rw [hmanifest] at hnodup
      refine ⟨hproper.nonempty, ?_, fun x hx => hholds x (hlive x hx)⟩
      exact hnodup.map_on fun x hx y hy hname => hnamed x (hlive x hx) y (hlive y hy) hname
    refine ⟨?_, ?_, hholds, hnamed⟩
    · rw [hsnapshots, List.map_append, h.ids, List.length_append, List.length_singleton, List.range'_concat]
      simp [hid, Nat.add_comm]
    · rw [hsnapshots]
      intro snapshot hs
      rcases List.mem_append.1 hs with hs | hs
      · exact hold snapshot hs
      · obtain rfl := List.mem_singleton.1 hs
        exact hadded

private theorem Reached.intact_move (hw : w.Reached t) (h : w.Intact) (m : Move) : (w.move t m).Intact :=
  h.develops (develops_move hw.sound m) (hw.move m).sound (hw.move m).proper

theorem intact_play (t : Table) (moves : List Move) : (play t {} moves).Intact :=
  Reached.start.play_induction (P := Intact) intact_empty (fun m hw h => hw.intact_move h m) moves

theorem Reached.intact (hw : w.Reached t) : w.Intact := by
  obtain ⟨moves, rfl⟩ := hw.exists_play
  exact intact_play t moves

/-- Known files tell the size of their rows. -/
theorem Reached.measures (hw : w.Reached t) : ∀ x ∈ w.known, w.storage.Measures x := by
  obtain ⟨moves, rfl⟩ := hw.exists_play
  refine Reached.start.play_induction (P := fun w => ∀ x ∈ w.known, w.storage.Measures x) ?_ (fun m hw' h => ?_) moves
  · simp [known, pending, Storage.manifest, Storage.latest?, Manifest.files]
  · obtain ⟨new, hcreates, hknown⟩ := (develops_move hw'.sound m).created
    intro x hx
    rcases hknown x hx with hx | hx
    · exact (h x hx).extends (hw'.intact.holds x hx).stores hcreates.extends_
    · exact hcreates.measures x hx

/-- Snapshots and contents are only added to. -/
theorem Reached.prefix_play (hw : w.Reached t) (moves : List Move) :
    w.storage.snapshots <+: (w.play t moves).storage.snapshots ∧ w.storage.Extends (w.play t moves).storage := by
  refine hw.play_induction (P := fun w' => w.storage.snapshots <+: w'.storage.snapshots ∧
    w.storage.Extends w'.storage) ⟨List.prefix_refl _, .refl _⟩ (fun m hw' h => ?_) moves
  have hd := develops_move hw'.sound m
  obtain ⟨new, hcreates, -⟩ := hd.created
  refine ⟨h.1.trans ?_, h.2.trans hcreates.extends_⟩
  rcases hd.adds with hsame | ⟨added, -, hadded⟩
  · exact hsame.symm ▸ List.prefix_refl _
  · rw [hadded]
    exact List.prefix_append _ _

private theorem Intact.id_eq (h : w.Intact) {i : Nat} (hi : w.storage.snapshots[i]? = some snapshot) :
    snapshot.id = i + 1 := by
  have hid : (w.storage.snapshots.map Snapshot.id)[i]? = some snapshot.id := by
    rw [List.getElem?_map, hi, Option.map_some]
  rw [h.ids, List.getElem?_eq_some_iff] at hid
  obtain ⟨hlt, hid⟩ := hid
  rw [← hid, List.getElem_range', Nat.one_mul, Nat.add_comm]

/-- Whatever was done with a table, and whatever is done next: its snapshots are numbered in order from 1 and intact, no
two files were given one name, all of its snapshots and rows stay as they are, and reading the files of a snapshot
gives the same rows then as before. -/
theorem play_keeps (t : Table) (moves later : List Move) :
    let s := (play t {} moves).storage
    let s' := (play t {} (moves ++ later)).storage
    (∀ i snapshot, s.snapshots[i]? = some snapshot → snapshot.id = i + 1) ∧
    (∀ snapshot ∈ s.snapshots, snapshot.Intact s) ∧
    (s.contents.map Prod.fst).Nodup ∧
    s.snapshots <+: s'.snapshots ∧ s.contents <+: s'.contents ∧
    ∀ snapshot ∈ s.snapshots, ∃ rows,
      s.read snapshot.manifest.files = .ok rows ∧ s'.read snapshot.manifest.files = .ok rows := by
  intro s s'
  have hw : (play t {} moves).Reached t := Reached.start.play moves
  have hintact := intact_play t moves
  have hlater : s' = ((play t {} moves).play t later).storage := congrArg storage (play_append t {} moves later)
  obtain ⟨hsnapshots, hextends⟩ := hw.prefix_play later
  rw [← hlater] at hsnapshots hextends
  exact ⟨fun i snapshot hi => hintact.id_eq hi, hintact.snapshots, hw.sound.storage.numbered.nodup, hsnapshots,
    hextends, fun snapshot hs => (hintact.snapshots snapshot hs).read hextends⟩

/-- Files that were merged are listed by the earlier snapshots as before. -/
example :
    let t : Table := ⟨"t", [], .dynamic, 1, [], []⟩
    let append (n : Int) : Move := .event (.append [] [[("v", .int n)]] none "u")
    let moves := [append 1, append 2, .event (.plan [] {}), .event (.compact [] 0 0 true 0), .event (.commit [] 0 "c")]
    (play t {} moves).storage.snapshots.map (fun snapshot => snapshot.manifest.files.map DataFile.name) =
      [[.text "data-000000.json"], [.text "data-000000.json", .text "data-000001.json"],
        [.text "data-000002.json"]] := by
  decide

end World

end Compaction
