import Compaction.Proofs.History.Proper
import Compaction.Proofs.Job.Buckets

/-!
# Compacting assigned buckets

Compacting a table of assigned buckets never fails, whichever options, filter and number of workers it is run with. It
leaves every selected bucket with one file and every other one as it was, all in the same order, so reading gives the
same rows in the same order; once it is done there is nothing left to do (`compact_assigned`).
-/

namespace Compaction

variable {t : Table} {s s' : Storage} {r : Request} {predicate : Option Predicate} {user : String}

private theorem rowsIn_compacted {filter : Option Filter} {m m' : Manifest}
    (h : List.Forall₂ (Entry.Compacted t filter s s') m m') : s'.rowsIn m' = s.rowsIn m := by
  induction h with
  | nil => rfl
  | @cons e e' rest rest' he _ ih =>
    have hsplit : ∀ (s : Storage) (e : Entry) (m : Manifest), s.rowsIn (e :: m) =
        e.files.flatMap s.rowsOf ++ s.rowsIn m := fun s e m => by
      simp [Storage.rowsIn, Manifest.files]
    rw [hsplit, hsplit, he.rows, ih]

private theorem selected_of_compacted {filter : Option Filter} {m m' : Manifest}
    (h : List.Forall₂ (Entry.Compacted t filter s s') m m') :
    ∀ e' ∈ m', t.selects filter e'.partition → e'.files.length = 1 := by
  induction h with
  | nil => simp
  | @cons e e' rest rest' he _ ih =>
    refine List.forall_mem_cons.2 ⟨fun hselected => he.selected ?_, ih⟩
    rwa [he.partition] at hselected

private theorem decides_of_compacted {filter : Option Filter} {m m' : Manifest} {p : Predicate}
    (h : List.Forall₂ (Entry.Compacted t filter s s') m m') (hdec : ∀ e ∈ m, p.Decides e.partition) :
    ∀ e' ∈ m', p.Decides e'.partition := by
  induction h with
  | nil => simp
  | @cons e e' rest rest' he _ ih =>
    rw [List.forall_mem_cons] at hdec
    refine List.forall_mem_cons.2 ⟨?_, ih hdec.2⟩
    rw [he.partition]
    exact hdec.1

/-- The job of the selected buckets succeeds, and is skipped if each of them has one file. -/
private theorem Table.runUnits_compacted (filter : Option Filter) {entries : List Entry} (hs : s.Sound t)
    (hp : s.manifest.Proper) (hw : ¬ t.isWriteOnly) (hm : t.mode.isAssigned)
    (hentries : entries = s.manifest.filter fun e => t.selects filter e.partition) (workers : Int) (user : String)
    (start : Report) :
    ∃ report s', t.runUnits (.threads (.whole workers)) user (entries.map Entry.unit) start s = (.ok report, s') ∧
      s'.Sound t ∧ s'.manifest.Proper ∧ List.Forall₂ (Entry.Compacted t filter s s') s.manifest s'.manifest ∧
      ((∀ e ∈ entries, e.files.length = 1) → report.status = .skipped ∧ s'.snapshots = s.snapshots) := by
  have hmem : ∀ e, e ∈ entries ↔ e ∈ s.manifest ∧ t.selects filter e.partition := by
    intro e
    rw [hentries]
    exact List.mem_filter
  have hsub : entries.Sublist s.manifest := hentries ▸ List.filter_sublist
  obtain ⟨fragments, s₁, hrun, hc, hcons⟩ := exists_run_buckets hs hw hm hsub workers
  have hs₁ := hs.writes hc.writes
  have hsame := hc.writes.manifest
  have hp₁ : s₁.manifest.Proper := hsame ▸ hp
  have hlisted : ∀ e ∈ entries, e ∈ s₁.manifest := hsame ▸ hsub.subset
  have hcompacted := hcons.compacted hs hp hc hmem
  have haccepts := hcons.accepts hs₁ hp₁ hlisted
  have hchanges := hcons.changesOf
  have hrun' := runUnits_of_accepts hrun (hchanges.symm ▸ haccepts) user start
  rw [hchanges] at hrun'
  rcases hrun' with ⟨rfl, report, e, hstatus⟩ | ⟨hsome, report, e⟩
  · rw [Manifest.map_filesAfter_nil hs.manifest.keys] at hcompacted
    exact ⟨report, s₁, e, hs₁, hp₁, hsame ▸ hcompacted, fun _ => ⟨hstatus, hc.writes.snapshots⟩⟩
  · have hn := hc.writes.nodup_append hs.manifest.stored hs.manifest.nodup
    rw [← hsame] at hn
    refine ⟨report, _, e, Storage.sound_commit hs₁ hc.merges haccepts.2 hn user "COMPACT", ?_, ?_, fun hone => ?_⟩
    · rw [Storage.manifest_withSnapshot]
      exact hp₁.committed haccepts.1
    · rw [Storage.manifest_withSnapshot, hcons.committed hs₁ hp₁ hlisted, hsame]
      exact hcompacted.imp fun e e' h => h.congr rfl rfl
    · exact absurd (hcons.eq_nil hone) hsome

/-- A compaction of assigned buckets succeeds, and is skipped if every selected bucket has one file. -/
private theorem Table.compact_compacted (hs : s.Sound t) (hp : s.manifest.Proper) (hm : t.mode.isAssigned)
    (hr : r.strategy = .none) (hbind : t.bindFilter r.filter = .ok predicate)
    (hdec : ∀ p ∈ predicate, ∀ e ∈ s.manifest, p.Decides e.partition) (workers : Int) (user : String) :
    ∃ report s', t.compact (.threads (.whole workers)) user r s = (.ok report, s') ∧ s'.Sound t ∧ s'.manifest.Proper ∧
      List.Forall₂ (Entry.Compacted t r.filter s s') s.manifest s'.manifest ∧
      ((∀ e ∈ s.manifest, t.selects r.filter e.partition → e.files.length = 1) →
        report.status = .skipped ∧ s'.snapshots = s.snapshots) := by
  have hplan := plan_assigned hm hr hbind hdec
  rcases compact_of_plan hr hplan (.threads (.whole workers)) user with ⟨hnone, e⟩ | ⟨-, e⟩
  · refine ⟨_, s, e, hs, hp, List.forall₂_same.2 fun e he => ?_, fun _ => ⟨rfl, rfl⟩⟩
    have hunselected : ¬ t.selects r.filter e.partition := List.filter_eq_nil_iff.1 (List.map_eq_nil_iff.1 hnone) e he
    exact ⟨rfl, rfl, fun hselected => absurd hselected hunselected, fun _ => rfl, rfl⟩
  · have hs₀ : s.Sound t.forCompaction := hs.handle _
    obtain ⟨report, s', hrun, hs', hp', hcompacted, hskipped⟩ := runUnits_compacted r.filter hs₀ hp
      t.not_isWriteOnly_forCompaction hm rfl workers user (t.started r)
    refine ⟨report, s', e.trans hrun, hs'.of_handle, hp', ?_, fun hone => hskipped fun e he => ?_⟩
    · exact hcompacted.imp fun e e' h => h.congr rfl rfl
    · obtain ⟨he, hselected⟩ := List.mem_filter.1 he
      exact hone e he hselected

/-! ### Tables that were reached -/

namespace World

variable {w : World}

/-- Compacting a table of assigned buckets never fails if the filter can be evaluated. Every selected bucket is left
with one file, every other one with the files that it had, none is added, left out or moved, and the same rows are read
in the same order. The next compaction for the same request is skipped and adds no snapshot. -/
theorem compact_assigned (h : w.Reached t) (hm : t.mode.isAssigned) (hr : r.strategy = .none)
    (hbind : t.bindFilter r.filter = .ok predicate) {selected : Manifest}
    (heval : w.storage.scan predicate = .ok selected) (workers : Int) (user : String) :
    ∃ report s', t.compact (.threads (.whole workers)) user r w.storage = (.ok report, s') ∧
      List.Forall₂ (fun e e' : Entry => e'.partition = e.partition ∧ e'.bucket = e.bucket ∧
        (e ∈ selected → e'.files.length = 1) ∧ (e ∉ selected → e'.files = e.files)) w.storage.manifest s'.manifest ∧
      s'.readRows none = w.storage.readRows none ∧
      ∀ workers' user', ∃ report' s'', t.compact (.threads (.whole workers')) user' r s' = (.ok report', s'') ∧
        report'.status = .skipped ∧ s''.snapshots = s'.snapshots := by
  obtain ⟨hdec, rfl⟩ := Storage.scan_eq_ok.1 heval
  have hs := h.sound.storage
  obtain ⟨report, s', e, hs', hp', hcompacted, -⟩ := Table.compact_compacted hs h.proper hm hr hbind hdec workers user
  refine ⟨report, s', e, ?_, ?_, fun workers' user' => ?_⟩
  · have hlisted := (List.forall₂_and_left _ _).2 ⟨fun e (he : e ∈ w.storage.manifest) => he, hcompacted⟩
    refine hlisted.imp fun e e' ⟨he, h⟩ => ⟨h.partition, h.bucket, fun hin => ?_, fun hout => ?_⟩
    · refine h.selected ?_
      rw [Table.selects_eq hbind]
      exact (List.mem_filter.1 hin).2
    · refine h.others fun hselected => hout (List.mem_filter.2 ⟨he, ?_⟩)
      rwa [Table.selects_eq hbind] at hselected
  · rw [hs'.readRows_none, hs.readRows_none, rowsIn_compacted hcompacted]
  · have hdec' : ∀ p ∈ predicate, ∀ e ∈ s'.manifest, p.Decides e.partition := fun p hmem =>
      decides_of_compacted hcompacted (hdec p hmem)
    obtain ⟨report', s'', e', -, -, -, hskipped⟩ := Table.compact_compacted hs' hp' hm hr hbind hdec' workers' user'
    obtain ⟨hstatus, hsnapshots⟩ := hskipped (selected_of_compacted hcompacted)
    exact ⟨report', s'', e', hstatus, hsnapshots⟩

/-- A table that is written only: of its two buckets with two files each one is selected. -/
theorem compact_assigned_of_two_buckets :
    let t : Table := ⟨"t", ["dt"], .dynamic, 1, [], [("write-only", "true")]⟩
    let append (n : Int) : Event :=
      .append [] [[("dt", .int 1), ("v", .int n)], [("dt", .int 2), ("v", .int n)]] none "u"
    let s := (run t [append 1, append 2]).storage
    let r : Request := { filter := some ⟨[[("dt", "02")]]⟩ }
    ∃ report s', t.compact (.threads (.whole 3)) "u" r s = (.ok report, s') ∧
      s'.readRows none = s.readRows none ∧
      ∃ report' s'', t.compact (.threads (.whole 1)) "v" r s' = (.ok report', s'') ∧
        report'.status = .skipped ∧ s''.snapshots = s'.snapshots := by
  intro t append s r
  have hok : ∀ e ∈ s.manifest, (Predicate.test ⟨["dt"], ⟨[[("dt", "02")]]⟩⟩ e.partition).isOk := by decide +kernel
  have hdec : ∀ p ∈ some (Predicate.mk ["dt"] ⟨[[("dt", "02")]]⟩), ∀ e ∈ s.manifest, p.Decides e.partition := by
    intro p hp e he
    cases hp
    exact Predicate.decides_of_isOk (hok e he)
  have hbind : t.bindFilter r.filter = .ok (some ⟨["dt"], ⟨[[("dt", "02")]]⟩⟩) := by rfl
  obtain ⟨report, s', e, -, hrows, hnext⟩ := compact_assigned (reached_run t [append 1, append 2]) rfl rfl hbind
    (Storage.scan_eq_ok.2 ⟨hdec, rfl⟩) 3 "u"
  exact ⟨report, s', e, hrows, hnext 1 "v"⟩

end World

end Compaction
