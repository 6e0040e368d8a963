import Compaction.Proofs.Job.Exchange
import Compaction.Proofs.Table.Places
import Compaction.Proofs.Table.Proper

/-!
# Commits up to the names of new files

A merged file is named by the count of the files before it, so its name depends on what was merged earlier. Its other
properties do not (`FileView`), and neither does what a commit makes of them: whether fragments are accepted, and what
is seen of each bucket afterwards, depend on the outlines of the fragments in any order (`accepts_iff_of_outlines`,
`mirrors_committed`).
-/

namespace Compaction

/-- What is seen of a file besides its name. -/
structure FileView where
  level : Int
  rows : Int
  size : Int
  contents : List Row

/-- What a fragment replaces, and what is seen of the files that it puts there. -/
structure Outline where
  partition : Partition
  bucket : Int
  before : List DataFile
  after : List FileView

def Storage.view (s : Storage) (f : DataFile) : FileView := ⟨f.level, f.rows, f.size, s.rowsOf f⟩

def Fragment.outline (s : Storage) (f : Fragment) : Outline := ⟨f.partition, f.bucket, f.before, f.after.map s.view⟩

/-- The bucket that a fragment with the outline changes. -/
def Outline.key (o : Outline) : BucketKey := (o.partition.keys, o.bucket)

/-- The fragment that replaces the same files by none. -/
def Outline.bare (o : Outline) : Fragment := { partition := o.partition, bucket := o.bucket, before := o.before }

def Fragment.bare (f : Fragment) : Fragment := { partition := f.partition, bucket := f.bucket, before := f.before }

/-- Whether a fragment puts some files in the place of others and adds none. -/
structure Fragment.Replaces (f : Fragment) : Prop where
  added : f.added = []
  before : f.before ≠ []
  after : f.after ≠ []

/-- Whether a bucket is listed under the same partition and number, with the same files but for their names and their
order. -/
structure Entry.Mirrors (s s' : Storage) (e e' : Entry) : Prop where
  place : e'.place = e.place
  files : (e.files.map s.view).Perm (e'.files.map s'.view)

/-- Whether the latest snapshots list the same buckets, with the same files but for their names and their order. -/
def Storage.Mirrors (s s' : Storage) : Prop := List.Forall₂ (Entry.Mirrors s s') s.manifest s'.manifest

variable {t : Table} {s s' s₁ s₂ : Storage} {m : Manifest} {fs gs : List Fragment} {key : BucketKey}

theorem Storage.Extends.view_eq (h : s.Extends s') {f : DataFile} (hf : s.Stores f) : s'.view f = s.view f := by
  rw [view, h.rowsOf_eq hf, view]

theorem Fragment.outline_of_extends (h : s.Extends s') {f : Fragment} (hf : ∀ x ∈ f.after, s.Stores x) :
    f.outline s' = f.outline s := by
  have hviews : f.after.map s'.view = f.after.map s.view := List.map_congr_left fun x hx => h.view_eq (hf x hx)
  rw [outline, hviews, outline]

private theorem map_bare_outlines (s : Storage) (fs : List Fragment) :
    (fs.map (Fragment.outline s)).map Outline.bare = fs.map Fragment.bare := List.map_map

private theorem bare_perm (h : (fs.map (Fragment.outline s₁)).Perm (gs.map (Fragment.outline s₂))) :
    (fs.map Fragment.bare).Perm (gs.map Fragment.bare) := by
  rw [← map_bare_outlines s₁, ← map_bare_outlines s₂]
  exact h.map _

/-! ### Accepted fragments -/

namespace Manifest

private theorem admits_map_bare (m : Manifest) (fs : List Fragment) :
    m.Admits (fs.map Fragment.bare) ↔ m.Admits fs := by
  constructor
  · rintro ⟨hlive, hapart⟩
    exact ⟨List.forall_mem_map.1 hlive, List.pairwise_map.1 hapart⟩
  · rintro ⟨hlive, hapart⟩
    exact ⟨List.forall_mem_map.2 hlive, List.pairwise_map.2 hapart⟩

private theorem filesKept_map_bare (m : Manifest) (fs : List Fragment) (key : BucketKey) :
    m.filesKept (fs.map Fragment.bare) key = m.filesKept fs key :=
  List.filter_congr fun _ _ => List.all_map

end Manifest

/-- Whether fragments are accepted depends on their outlines, in any order. -/
theorem accepts_iff_of_outlines (hm : s₂.manifest = s₁.manifest)
    (h : (fs.map (Fragment.outline s₁)).Perm (gs.map (Fragment.outline s₂))) : s₁.Accepts fs ↔ s₂.Accepts gs := by
  have hbare := bare_perm h
  have hkeys : (∀ f ∈ fs, f.partition.isKey) ↔ ∀ g ∈ gs, g.partition.isKey := by
    have hall : (∀ f ∈ fs.map Fragment.bare, f.partition.isKey) ↔ ∀ g ∈ gs.map Fragment.bare, g.partition.isKey :=
      forall_congr' fun f => imp_congr hbare.mem_iff Iff.rfl
    rwa [List.forall_mem_map, List.forall_mem_map] at hall
  have hadmits : s₁.manifest.Admits fs ↔ s₁.manifest.Admits gs := by
    rw [← Manifest.admits_map_bare, ← s₁.manifest.admits_map_bare gs]
    exact ⟨fun h => h.perm hbare, fun h => h.perm hbare.symm⟩
  rw [Storage.Accepts, Storage.Accepts, hkeys, hm, hadmits]

/-! ### What is seen after a commit -/

namespace Manifest

private theorem map_view_brought (s : Storage) (hadded : ∀ f ∈ fs, f.added = []) (key : BucketKey) :
    ((fs.filter (·.key = key)).flatMap Fragment.brought).map s.view =
      ((fs.map (Fragment.outline s)).filter (·.key = key)).flatMap Outline.after := by
  rw [List.filter_map, List.flatMap_map, List.map_flatMap]
  refine List.flatMap_congr fun f hf => ?_
  rw [Fragment.brought, hadded f (List.mem_filter.1 hf).1, List.append_nil]
  rfl

/-- What is seen of the files of a bucket after the fragments depends on their outlines, in any order. -/
private theorem map_view_filesAfter_perm (h : (fs.map (Fragment.outline s₁)).Perm (gs.map (Fragment.outline s₂)))
    (hfs : ∀ f ∈ fs, f.added = []) (hgs : ∀ g ∈ gs, g.added = []) (key : BucketKey)
    (hsame : ∀ x ∈ m.filesAt key, s₁.view x = s₂.view x) :
    ((m.filesAfter fs key).map s₁.view).Perm ((m.filesAfter gs key).map s₂.view) := by
  have hkept : m.filesKept fs key = m.filesKept gs key := by
    rw [← filesKept_map_bare, ← filesKept_map_bare m gs]
    exact filesKept_perm (bare_perm h) key
  have hviews : (m.filesKept gs key).map s₁.view = (m.filesKept gs key).map s₂.view :=
    List.map_congr_left fun x hx => hsame x (List.mem_filter.1 hx).1
  rw [filesAfter, filesAfter, List.map_append, List.map_append, map_view_brought s₁ hfs, map_view_brought s₂ hgs,
    hkept, hviews]
  exact ((h.filter _).flatMap_right _).append_left _

/-- Fragments that replace files change listed buckets only, and leave none of them empty. -/
theorem committed_eq_map_of_replaces (hn : (m.map Entry.key).Nodup) (hp : m.Proper) (hf : ∀ f ∈ fs, f.Replaces)
    (hadmits : m.Admits fs) :
    m.committed fs = m.map fun e => { e with files := m.filesAfter fs e.key } := by
  refine committed_eq_map hn (fun f hmem => ?_) fun e he => ?_
  · obtain ⟨x, hx⟩ := List.exists_mem_of_ne_nil _ (hf f hmem).before
    by_contra hunlisted
    have hlive := hadmits.live f hmem x hx
    rw [filesAt_eq_nil hunlisted] at hlive
    cases hlive
  · by_cases htouched : ∃ f ∈ fs, f.key = e.key
    · obtain ⟨f, hmem, hk⟩ := htouched
      obtain ⟨x, hx⟩ := List.exists_mem_of_ne_nil _ (hf f hmem).after
      refine List.ne_nil_of_mem (List.mem_append_right _ (List.mem_flatMap.2 ⟨f, ?_, List.mem_append_left _ hx⟩))
      exact List.mem_filter.2 ⟨hmem, decide_eq_true hk⟩
    · rw [filesAfter_of_untouched fun f hmem hk => htouched ⟨f, hmem, hk⟩, filesAt_of_mem hn he]
      exact hp.nonempty e he

end Manifest

/-- Commits of fragments with the same outlines leave buckets that mirror each other. -/
theorem mirrors_committed (hn : (m.map Entry.key).Nodup) (hp : m.Proper)
    (h : (fs.map (Fragment.outline s₁)).Perm (gs.map (Fragment.outline s₂)))
    (hfs : ∀ f ∈ fs, f.Replaces) (hgs : ∀ g ∈ gs, g.Replaces) (hadmits : m.Admits fs) (hadmits' : m.Admits gs)
    (hsame : ∀ x ∈ m.files, s₁.view x = s₂.view x) :
    List.Forall₂ (Entry.Mirrors s₁ s₂) (m.committed fs) (m.committed gs) := by
  rw [Manifest.committed_eq_map_of_replaces hn hp hfs hadmits, Manifest.committed_eq_map_of_replaces hn hp hgs hadmits',
    List.forall₂_map_left_iff, List.forall₂_map_right_iff, List.forall₂_same]
  intro e he
  refine ⟨rfl, ?_⟩
  apply Manifest.map_view_filesAfter_perm h (fun f hf => (hfs f hf).added) (fun g hg => (hgs g hg).added) e.key
  rw [Manifest.filesAt_of_mem hn he]
  exact fun x hx => hsame x (Manifest.mem_files.2 ⟨e, he, hx⟩)

end Compaction
