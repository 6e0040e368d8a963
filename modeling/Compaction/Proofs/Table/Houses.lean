import Compaction.Proofs.Job.Atomic
import Compaction.Proofs.Table.Places

/-!
# Buckets and their rows

A bucket is named by the partition of one of its rows, and all of them belong to it (`Storage.Houses`). Appending and
overwriting keep that because rows are put under their own keys (`Houses.append`, `Houses.overwrite`), merging because
a merged file holds just the rows of the bucket that it is put back to (`Houses.commit`).
-/

namespace Compaction

/-- The rows of the files of a bucket. -/
def Entry.rows (s : Storage) (e : Entry) : List Row := e.files.flatMap s.rowsOf

/-- Whether a bucket is named by the partition of one of its rows, and a relation to its key holds of all of them. -/
structure Entry.Houses (t : Table) (P : BucketKey → Row → Prop) (s : Storage) (e : Entry) : Prop where
  named : ∃ r ∈ e.rows s, t.partitionOf r = .ok e.partition
  placed : ∀ r ∈ e.rows s, P e.key r

namespace Storage

/-- Whether this is so of all buckets that the latest snapshot lists. -/
def Houses (t : Table) (P : BucketKey → Row → Prop) (s : Storage) : Prop := ∀ e ∈ s.manifest, e.Houses t P s

variable {t : Table} {P : BucketKey → Row → Prop} {s s' : Storage} {fragments : List Fragment}

theorem houses_empty (t : Table) (P : BucketKey → Row → Prop) : Houses t P {} := by
  simp [Houses, Storage.manifest, latest?]

private theorem rows_of_extends (hs : s.Sound t) (h : s.Extends s') {e : Entry} (he : e ∈ s.manifest) :
    e.rows s' = e.rows s :=
  h.flatMap_rowsOf fun _ hf => hs.manifest.stored _ (Manifest.mem_files.2 ⟨e, he, hf⟩)

namespace Houses

theorem each (h : s.Houses t P) : s.manifest.Each fun key x => ∀ r ∈ s.rowsOf x, P key r :=
  fun e he x hx r hr => (h e he).placed r (List.mem_flatMap.2 ⟨x, hx, hr⟩)

/-- Partitions of rows depend on the partition columns only. -/
theorem of_keys (h : s.Houses t P) {t' : Table} (hkeys : t'.keys = t.keys) : s.Houses t' P := by
  intro e he
  refine ⟨?_, (h e he).placed⟩
  obtain ⟨r, hr, hnamed⟩ := (h e he).named
  rw [Table.partitionOf_eq_ok, ← hkeys, ← Table.partitionOf_eq_ok] at hnamed
  exact ⟨r, hr, hnamed⟩

/-- Files that no snapshot lists change nothing. -/
theorem grows (h : s.Houses t P) (hs : s.Sound t) (hg : s.Grows s') : s'.Houses t P := by
  intro e he
  rw [hg.manifest] at he
  have hrows := rows_of_extends hs hg.extends_ he
  refine ⟨?_, ?_⟩
  · rw [hrows]
    exact (h e he).named
  · rw [hrows]
    exact (h e he).placed

/-- A commit keeps buckets named by their rows if no row of a listed bucket is lost, and a bucket that is not listed is
named by a row that is brought. -/
theorem committed (h : s.Houses t P) (hn : (s.manifest.map Entry.key).Nodup)
    (hplaced : ∀ f ∈ fragments, ∀ r ∈ f.brought.flatMap s.rowsOf, P f.key r)
    (hkept : ∀ f ∈ fragments, ∀ r ∈ f.before.flatMap s.rowsOf, r ∈ f.brought.flatMap s.rowsOf)
    (hnamed : ∀ f ∈ fragments, f.key ∉ s.manifest.map Entry.key →
      ∃ r ∈ f.brought.flatMap s.rowsOf, t.partitionOf r = .ok f.partition) (user kind : String) :
    (s.withSnapshot user kind (s.manifest.committed fragments)).Houses t P := by
  intro e he
  rw [manifest_withSnapshot] at he
  have hfiles : e.files = s.manifest.filesAfter fragments e.key := by
    rw [← Manifest.filesAt_committed hn, Manifest.filesAt_of_mem (Manifest.nodup_keys_committed hn) he]
  have hbrought : ∀ f ∈ fragments, f.key = e.key → ∀ r ∈ f.brought.flatMap s.rowsOf, r ∈ e.rows s := by
    intro f hf hkey r hr
    obtain ⟨x, hx, hr⟩ := List.mem_flatMap.1 hr
    refine List.mem_flatMap.2 ⟨x, hfiles ▸ List.mem_append_right _ (List.mem_flatMap.2 ⟨f, ?_, hx⟩), hr⟩
    exact List.mem_filter.2 ⟨hf, decide_eq_true hkey⟩
  constructor
  · rcases Manifest.mem_place_committed he with hplace | ⟨f, hf, hunlisted, hplace⟩
    · obtain ⟨e₀, he₀, hplace⟩ := List.mem_map.1 hplace
      obtain ⟨hpartition, hbucket⟩ := Prod.mk.inj hplace
      have hkey : e₀.key = e.key := by rw [Entry.key, hpartition, hbucket, Entry.key]
      obtain ⟨r, hr, hr'⟩ := (h e₀ he₀).named
      refine ⟨r, ?_, hr'.trans (congrArg Except.ok hpartition)⟩
      -- the row that names the bucket is in a file that stays, or in one that is replaced
      obtain ⟨x, hx, hrx⟩ := List.mem_flatMap.1 hr
      by_cases htaken : ∃ f ∈ fragments, f.key = e.key ∧ x ∈ f.before
      · obtain ⟨f, hf, hfkey, hx⟩ := htaken
        exact hbrought f hf hfkey r (hkept f hf r (List.mem_flatMap.2 ⟨x, hx, hrx⟩))
      · refine List.mem_flatMap.2 ⟨x, hfiles ▸ List.mem_append_left _ (List.mem_filter.2 ⟨?_, ?_⟩), hrx⟩
        · rwa [← hkey, Manifest.filesAt_of_mem hn he₀]
        · rw [List.all_eq_true]
          intro f hf
          by_cases hfkey : f.key = e.key
          · have hx : x ∉ f.before := fun hx => htaken ⟨f, hf, hfkey, hx⟩
            simp [hx]
          · simp [hfkey]
    · obtain ⟨hpartition, hbucket⟩ := Prod.mk.inj hplace
      obtain ⟨r, hr, hr'⟩ := hnamed f hf hunlisted
      refine ⟨r, hbrought f hf ?_ r hr, hr'.trans (congrArg Except.ok hpartition.symm)⟩
      rw [Fragment.key, ← hpartition, ← hbucket, Entry.key]
  · intro r hr
    have hall := h.each.committed fun f hf x hx r hr => hplaced f hf r (List.mem_flatMap.2 ⟨x, hx, hr⟩)
    obtain ⟨x, hx, hr⟩ := List.mem_flatMap.1 hr
    exact hall e he x hx r hr

/-- Merged files hold the rows of those that they replace. -/
theorem commit (h : s.Houses t P) (hs : s.Sound t) (hm : ∀ f ∈ fragments, f.Merges s)
    (hbefore : ∀ f ∈ fragments, f.before ≠ []) (hadmits : s.manifest.Admits fragments) (user kind : String) :
    (s.withSnapshot user kind (s.manifest.committed fragments)).Houses t P := by
  refine h.committed hs.manifest.keys (fun f hf => (hm f hf).placed (hadmits.live f hf) h.each) (fun f hf r hr => ?_)
    (fun f hf hunlisted => ?_) user kind
  · rwa [(hm f hf).brought, (hm f hf).rows]
  · -- what is replaced is listed
    obtain ⟨x, hx⟩ := List.exists_mem_of_ne_nil _ (hbefore f hf)
    have hlive := hadmits.live f hf x hx
    rw [Manifest.filesAt_eq_nil hunlisted] at hlive
    cases hlive

theorem commitFragments (h : s.Houses t P) (hs : s.Sound t) (hm : ∀ f ∈ fragments, f.Merges s)
    (hbefore : ∀ f ∈ fragments, f.before ≠ []) (t' : Table) (user : String) :
    (t'.commitFragments user fragments s).2.Houses t P := by
  rcases t'.commitFragments_cases user fragments s with ⟨-, fault, e⟩ | ⟨-, e⟩ | ⟨-, ⟨-, hadmits⟩, e⟩
  · rw [e]
    exact h
  · rw [e]
    exact h
  · have hchanges : ∀ f ∈ changesOf fragments, f ∈ fragments := fun f hf => (List.mem_filter.1 hf).1
    rw [e]
    exact h.commit hs (fun f hf => hm f (hchanges f hf)) (fun f hf => hbefore f (hchanges f hf)) hadmits user "COMPACT"

/-- Appended rows are put under their own keys. -/
theorem append (h : s.Houses t P) (hs : s.Sound t) (bucket : Option Int)
    (hP : ∀ r keys b, t.keysOf? r = some keys → t.bucketFor bucket r = .ok b → P (keys, b) r) (rows : List Row)
    (user : String) : (t.append rows bucket user s).2.Houses t P := by
  rcases t.append_changes rows bucket user s with ⟨groups, e⟩ | ⟨groups, hgroups, -, e⟩
  · rw [e]
    exact h.grows hs (Storage.grows_storeGroups groups s)
  · have hw := Table.writes_storeGroups groups hs.numbered
    have hrows := Table.rowsOf_storeGroups groups hs.numbered
    have hgrown := h.grows hs (Storage.grows_storeGroups groups s)
    have hmem : ∀ e ∈ (Table.storeGroups groups s).1, e.1 ∈ groups := fun e he => Table.mem_storeGroups he
    rw [e]
    generalize (Table.storeGroups groups s).1 = written, (Table.storeGroups groups s).2 = s₁ at hw hrows hgrown hmem ⊢
    have hbrought : ∀ e ∈ written, (Table.addition e).brought.flatMap s₁.rowsOf = e.1.rows := by
      intro e he
      rw [← hrows e he]
      exact List.flatMap_singleton ..
    rcases t.apply_cases user "APPEND" (written.map Table.addition) s₁ with ⟨fault, -, e⟩ | ⟨-, -, e⟩
    · rw [e]
      exact hgrown
    · rw [e]
      refine hgrown.committed (hs.writes hw).manifest.keys ?_ ?_ ?_ user "APPEND"
      · rw [List.forall_mem_map]
        intro e he r hr
        rw [hbrought e he] at hr
        obtain ⟨hkeys, hbucket⟩ := (Table.grouped_of_group hgroups).placed e.1 (hmem e he) r hr
        exact hP r _ _ hkeys hbucket
      · rw [List.forall_mem_map]
        intro e _ r hr
        cases hr
      · rw [List.forall_mem_map]
        intro e he _
        rw [hbrought e he]
        exact Table.exists_partitionOf_of_group hgroups e.1 (hmem e he)

/-- Rows that are written back are put under their partitions, in bucket 0. -/
theorem overwrite (h : s.Houses t P) (hs : s.Sound t) (hP : ∀ r keys, t.keysOf? r = some keys → P (keys, 0) r)
    (rows : List Row) (user : String) : (t.overwrite rows user s).2.Houses t P := by
  rcases t.overwrite_changes rows user s with ⟨groups, e⟩ | ⟨groups, hgroups, -, e⟩
  · rw [e]
    exact h.grows hs (Storage.grows_storeGroups groups s)
  · have hrows := Table.rowsOf_storeGroups groups hs.numbered
    have hgrown := h.grows hs (Storage.grows_storeGroups groups s)
    have hmem : ∀ e ∈ (Table.storeGroups groups s).1, e.1 ∈ groups := fun e he => Table.mem_storeGroups he
    rw [e]
    generalize (Table.storeGroups groups s).1 = written, (Table.storeGroups groups s).2 = s₁ at hrows hgrown hmem ⊢
    intro e he
    rw [manifest_withSnapshot] at he
    rcases List.mem_append.1 (List.mem_filter.1 he).1 with he | he
    · have hkept := hgrown e (List.mem_filter.1 he).1
      exact ⟨hkept.named, hkept.placed⟩
    · obtain ⟨x, hx, rfl⟩ := List.mem_map.1 he
      have hheld : (Table.replacement x).rows s₁ = x.1.rows := by
        rw [← hrows x hx]
        exact List.flatMap_singleton ..
      constructor
      · obtain ⟨r, hr, hpartition⟩ := Table.exists_partitionOf_of_group hgroups x.1 (hmem x hx)
        exact ⟨r, hheld.symm ▸ hr, hpartition⟩
      · intro r hr
        have hr' : r ∈ x.1.rows := hheld ▸ hr
        exact hP r _ ((Table.grouped_of_group hgroups).placed x.1 (hmem x hx) r hr').1

theorem writeSorted (h : s.Houses t P) (hs : s.Sound t) (hP : ∀ r keys, t.keysOf? r = some keys → P (keys, 0) r)
    (rows : List Row) (strategy : Strategy) (columns : List String) :
    (t.writeSorted rows strategy columns s).2.Houses t P := by
  rw [Table.writeSorted, Effect.ofExcept_bind]
  cases t.sortRows rows strategy columns with
  | error fault => exact h
  | ok inOrder => exact h.overwrite hs hP inOrder "sort-compact"

end Houses

end Storage

end Compaction
