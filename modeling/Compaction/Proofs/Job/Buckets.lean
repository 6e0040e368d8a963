import Compaction.Proofs.Job.Outlines
import Compaction.Proofs.Table.Proper

/-!
# Jobs of buckets

A request on a table of assigned buckets has one unit for each bucket that it selects, and none of them fails on a
sound table (`exists_run_buckets`). Each bucket with two files or more is merged by one fragment (`Consolidates`), so
the fragments are accepted whatever the order of the units, and every selected bucket is left with one file, in the
same place and with the same rows (`Consolidates.compacted`).
-/

namespace Compaction

/-- The fragment that puts one file in the place of all files of a bucket. -/
def Entry.merge (e : Entry) (merged : DataFile) : Fragment :=
  { partition := e.partition, bucket := e.bucket, before := e.files, after := [merged] }

/-- Whether each of these buckets is merged by one fragment if it has two files or more, and nothing else is done. -/
structure Consolidates (entries : List Entry) (fragments : List Fragment) : Prop where
  keys : (fragments.map Fragment.key).Nodup
  merges : ∀ f ∈ fragments, ∃ e ∈ entries, 2 ≤ e.files.length ∧ ∃ merged, f = e.merge merged
  merged : ∀ e ∈ entries, 2 ≤ e.files.length → ∃ merged, e.merge merged ∈ fragments

/-- Whether a bucket has become another one by a compaction: in the same place and with the same rows, of one file if
the filter selects it, and otherwise of the same files. -/
structure Entry.Compacted (t : Table) (filter : Option Filter) (s s' : Storage) (e e' : Entry) : Prop where
  partition : e'.partition = e.partition
  bucket : e'.bucket = e.bucket
  selected : t.selects filter e.partition → e'.files.length = 1
  others : ¬ t.selects filter e.partition → e'.files = e.files
  rows : e'.files.flatMap s'.rowsOf = e.files.flatMap s.rowsOf

variable {t : Table} {s s' : Storage} {r : Request} {predicate : Option Predicate} {units : List WorkUnit}
variable {entries : List Entry} {fragments : List Fragment} {m : Manifest}

theorem Entry.Compacted.congr {filter : Option Filter} {e e' : Entry} (h : Entry.Compacted t filter s s' e e')
    {t' : Table} {s'' : Storage} (hselects : t'.selects filter = t.selects filter) (hrows : s''.rowsOf = s'.rowsOf) :
    Entry.Compacted t' filter s s'' e e' := by
  constructor
  · exact h.partition
  · exact h.bucket
  · rw [hselects]
    exact h.selected
  · rw [hselects]
    exact h.others
  · rw [hrows]
    exact h.rows

/-! ### Planning and running -/

namespace Table

theorem plan_assigned (hm : t.mode.isAssigned) (hr : r.strategy = .none)
    (hbind : t.bindFilter r.filter = .ok predicate) (hdec : ∀ p ∈ predicate, ∀ e ∈ s.manifest, p.Decides e.partition) :
    t.plan s r = .ok ((s.manifest.filter fun e => t.selects r.filter e.partition).map Entry.unit) := by
  have hscan := Storage.scan_eq_ok.2 ⟨hdec, rfl⟩
  have hplan : planBuckets s predicate =
      .ok ((s.manifest.filter fun e => t.selects r.filter e.partition).map Entry.unit) := by
    rw [planBuckets, hscan]
    simp only [selects_eq hbind]
    rfl
  unfold plan
  rw [if_neg (by simp [hr]), hbind]
  change t.unitsUnder s predicate = _
  unfold unitsUnder
  cases hmode : t.mode with
  | fixed => exact hplan
  | dynamic => exact hplan
  | unaware => simp [hmode, BucketMode.isAssigned] at hm
  | crossPartition => simp [hmode, BucketMode.isAssigned] at hm

end Table

/-! ### What is made of the buckets -/

private theorem yields_unit (hn : (m.map Entry.key).Nodup) {e : Entry} (he : e ∈ m) {part : List Fragment}
    (h : e.unit.Yields m part) :
    (e.files.length < 2 ∧ part = []) ∨ (2 ≤ e.files.length ∧ ∃ merged, part = [e.merge merged]) := by
  have hfiles : m.filesAt (e.partition.keys, e.bucket) = e.files := Manifest.filesAt_of_mem hn he
  rw [Entry.unit, WorkUnit.Yields, hfiles] at h
  by_cases hl : e.files.length < 2
  · rw [if_pos hl] at h
    exact Or.inl ⟨hl, h⟩
  · rw [if_neg hl] at h
    exact Or.inr ⟨Nat.le_of_not_lt hl, h⟩

private theorem consolidates_of_yields (hn : (m.map Entry.key).Nodup) (he : ∀ e ∈ entries, e ∈ m)
    (hkeys : (entries.map Entry.key).Nodup) {parts : List (List Fragment)}
    (h : List.Forall₂ (WorkUnit.Yields m) (entries.map Entry.unit) parts) : Consolidates entries parts.flatten := by
  induction entries generalizing parts with
  | nil =>
    cases h
    exact ⟨List.nodup_nil, by simp, by simp⟩
  | cons e rest ih =>
    rw [List.forall_mem_cons] at he
    rw [List.map_cons, List.nodup_cons] at hkeys
    cases h with
    | @cons _ _ _ parts hfirst hrest =>
      have ih := ih he.2 hkeys.2 hrest
      have hmerges : ∀ f ∈ parts.flatten, ∃ e' ∈ e :: rest, 2 ≤ e'.files.length ∧ ∃ merged, f = e'.merge merged := by
        intro f hf
        obtain ⟨e', he', hmerge⟩ := ih.merges f hf
        exact ⟨e', List.mem_cons_of_mem _ he', hmerge⟩
      rcases yields_unit hn he.1 hfirst with ⟨hl, rfl⟩ | ⟨hl, merged, rfl⟩
      · rw [List.flatten_cons, List.nil_append]
        refine ⟨ih.keys, hmerges, List.forall_mem_cons.2 ⟨fun hl' => ?_, ih.merged⟩⟩
        exact absurd hl (Nat.not_lt.2 hl')
      · rw [List.flatten_cons, List.singleton_append]
        refine ⟨?_, List.forall_mem_cons.2 ⟨⟨e, by simp, hl, merged, rfl⟩, hmerges⟩, ?_⟩
        · refine List.nodup_cons.2 ⟨fun hmem => ?_, ih.keys⟩
          -- the other fragments are for other buckets
          obtain ⟨f, hf, hk⟩ := List.mem_map.1 hmem
          obtain ⟨e', he', -, merged', rfl⟩ := ih.merges f hf
          have hk' : e'.key = e.key := hk
          exact hkeys.1 (hk' ▸ List.mem_map_of_mem he')
        · refine List.forall_mem_cons.2 ⟨fun _ => ⟨merged, by simp⟩, fun e' he' hl' => ?_⟩
          obtain ⟨merged', hmem⟩ := ih.merged e' he' hl'
          exact ⟨merged', List.mem_cons_of_mem _ hmem⟩

/-- Buckets that are run by threads are consolidated, in whatever order that is done. -/
theorem exists_run_buckets (hs : s.Sound t) (hw : ¬ t.isWriteOnly) (hm : t.mode.isAssigned)
    (hsub : entries.Sublist s.manifest) (workers : Int) : ∃ fragments s',
      (Executor.threads (.whole workers)).run (entries.map Entry.unit) (t.worker t.mode) t.sendable s =
        (.ok fragments, s') ∧ s.Completes s' fragments ∧ Consolidates entries fragments := by
  have hunit : ∀ {entries : List Entry}, ∀ u ∈ entries.map Entry.unit, u.IsPlain ∧ u.Fits t.mode := by
    intro entries u hu
    obtain ⟨e, -, rfl⟩ := List.mem_map.1 hu
    exact ⟨trivial, hm⟩
  -- the order in which the units are run is that of some order of the buckets
  have hordered := flatten_slices_perm (entries.map Entry.unit) (min workers (entries.map Entry.unit).length)
  generalize hslices : (slices (entries.map Entry.unit) _).flatten = ordered at hordered
  obtain ⟨entries', rfl, hperm⟩ : Relation.Comp (· = List.map Entry.unit ·) List.Perm ordered entries := by
    rw [List.eq_map_comp_perm]
    exact hordered
  have hkeys := hs.manifest.keys.sublist (hsub.map Entry.key)
  have hready : ∀ u ∈ entries'.map Entry.unit, u.Ready s := by
    intro u hu
    obtain ⟨e, -, rfl⟩ := List.mem_map.1 hu
    exact trivial
  obtain ⟨fragments, s', hunits, -⟩ := exists_compactUnits hs hw (fun u hu => (hunit u hu).1) hready
  obtain ⟨hc, parts, rfl, hparts⟩ := compactUnits_eq_ok hs hw (fun u hu => (hunit u hu).1) hunits
  have hcons := consolidates_of_yields hs.manifest.keys (fun e he => hsub.subset (hperm.subset he))
    ((hperm.map Entry.key).nodup_iff.2 hkeys) hparts
  refine ⟨parts.flatten, s', ?_, hc, hcons.keys, fun f hf => ?_, fun e he hl => ?_⟩
  · exact (Executor.run_threads_eq_ok hs.willing fun u hu => (hunit u hu).2).2 ⟨_, rfl, hslices ▸ hunits⟩
  · obtain ⟨e, he, hmerge⟩ := hcons.merges f hf
    exact ⟨e, hperm.subset he, hmerge⟩
  · exact hcons.merged e (hperm.symm.subset he) hl

/-! ### What the fragments do -/

namespace Consolidates

theorem replaces (h : Consolidates entries fragments) : ∀ f ∈ fragments, f.Replaces := by
  intro f hf
  obtain ⟨e, -, hl, merged, rfl⟩ := h.merges f hf
  exact ⟨rfl, List.length_pos_iff.1 (Nat.lt_of_lt_of_le Nat.zero_lt_two hl), List.cons_ne_nil _ _⟩

theorem changesOf (h : Consolidates entries fragments) : changesOf fragments = fragments :=
  changesOf_eq_self fun f hf => (h.replaces f hf).after

theorem eq_nil (h : Consolidates entries fragments) (hone : ∀ e ∈ entries, e.files.length = 1) : fragments = [] := by
  rw [List.eq_nil_iff_forall_not_mem]
  intro f hf
  obtain ⟨e, he, hl, -⟩ := h.merges f hf
  have := hone e he
  omega

/-- The files of a bucket after the fragments. -/
theorem filesAfter (h : Consolidates entries fragments) (hn : (m.map Entry.key).Nodup)
    (hentries : ∀ e ∈ entries, e ∈ m) {e : Entry} (he : e ∈ m) :
    (e ∈ entries ∧ ∃ merged, e.merge merged ∈ fragments ∧ m.filesAfter fragments e.key = [merged]) ∨
    ((e ∈ entries → e.files.length < 2) ∧ m.filesAfter fragments e.key = e.files) := by
  by_cases hmerged : e ∈ entries ∧ 2 ≤ e.files.length
  · obtain ⟨merged, hf⟩ := h.merged e hmerged.1 hmerged.2
    refine Or.inl ⟨hmerged.1, merged, hf, ?_⟩
    have hafter := Manifest.filesAfter_of_mem (m := m) h.keys hf
    have hnone : e.files.filter (fun x => x ∉ e.files) = [] := by
      rw [List.filter_eq_nil_iff]
      intro x hx
      simpa using hx
    have hfiles : m.filesAt (e.merge merged).key = e.files := Manifest.filesAt_of_mem hn he
    rw [hfiles] at hafter
    exact hafter.trans (congrArg (· ++ [merged]) hnone)
  · refine Or.inr ⟨fun hmem => Nat.lt_of_not_le fun hl => hmerged ⟨hmem, hl⟩, ?_⟩
    rw [Manifest.filesAfter_of_untouched, Manifest.filesAt_of_mem hn he]
    intro f hf hk
    obtain ⟨e', he', hl, merged, rfl⟩ := h.merges f hf
    -- there is one bucket of a key
    have hsame : e' = e := List.inj_on_of_nodup_map hn (hentries e' he') he hk
    exact hmerged ⟨hsame ▸ he', hsame ▸ hl⟩

theorem accepts (h : Consolidates entries fragments) (hs : s.Sound t) (hp : s.manifest.Proper)
    (hentries : ∀ e ∈ entries, e ∈ s.manifest) : s.Accepts fragments := by
  refine ⟨fun f hf => ?_, Manifest.admits_of_nodup_keys h.keys fun f hf x hx => ?_⟩
  · obtain ⟨e, he, -, merged, rfl⟩ := h.merges f hf
    exact hp.isKey e (hentries e he)
  · obtain ⟨e, he, -, merged, rfl⟩ := h.merges f hf
    have hfiles : s.manifest.filesAt (e.merge merged).key = e.files :=
      Manifest.filesAt_of_mem hs.manifest.keys (hentries e he)
    rw [hfiles]
    exact hx

/-- No bucket is added, moved or left empty. -/
theorem committed (h : Consolidates entries fragments) (hs : s.Sound t) (hp : s.manifest.Proper)
    (hentries : ∀ e ∈ entries, e ∈ s.manifest) : s.manifest.committed fragments =
      s.manifest.map fun e => { e with files := s.manifest.filesAfter fragments e.key } :=
  Manifest.committed_eq_map_of_replaces hs.manifest.keys hp h.replaces (h.accepts hs hp hentries).2

/-- What the fragments of the selected buckets make of all buckets. -/
theorem compacted {filter : Option Filter} (h : Consolidates entries fragments) (hs : s.Sound t)
    (hp : s.manifest.Proper) (hc : s.Completes s' fragments)
    (hentries : ∀ e, e ∈ entries ↔ e ∈ s.manifest ∧ t.selects filter e.partition) :
    List.Forall₂ (Entry.Compacted t filter s s') s.manifest
      (s.manifest.map fun e => { e with files := s.manifest.filesAfter fragments e.key }) := by
  rw [List.forall₂_map_right_iff, List.forall₂_same]
  intro e he
  have hstored : ∀ f ∈ e.files, s.Stores f := fun f hf => hs.manifest.stored f (Manifest.mem_files.2 ⟨e, he, hf⟩)
  have hsame := hc.writes.extends_.flatMap_rowsOf hstored
  have hlisted : ∀ e ∈ entries, e ∈ s.manifest := fun e he => ((hentries e).1 he).1
  rcases h.filesAfter hs.manifest.keys hlisted he with ⟨hmem, merged, hf, hafter⟩ | ⟨hshort, hafter⟩
  · rw [hafter]
    refine ⟨rfl, rfl, fun _ => rfl, fun hnot => absurd ((hentries e).1 hmem).2 hnot, ?_⟩
    have hrows : [merged].flatMap s'.rowsOf = e.files.flatMap s'.rowsOf := (hc.merges _ hf).rows
    exact hrows.trans hsame
  · rw [hafter]
    refine ⟨rfl, rfl, fun hselected => ?_, fun _ => rfl, hsame⟩
    have hfew := hshort ((hentries e).2 ⟨he, hselected⟩)
    have hsome := List.length_pos_iff.2 (hp.nonempty e he)
    show e.files.length = 1
    omega

end Consolidates

end Compaction
