import Compaction.Proofs.Spill
import Compaction.Proofs.Table.Commit
import Compaction.Proofs.Table.Groups
import Mathlib.Data.List.Flatten

/-!
# Sound storages

In a sound storage the latest snapshot lists every bucket once and every file once, and all rows of a file have a text
and belong to the partition that it is listed under (`Storage.Sound`), so that its rows can be read (`readRows_none`).
Its workers can create spill directories.

Appending and overwriting end in one new snapshot, of buckets that are kept and of new files with just the given rows
(`Publishes`), or leave nothing but files that no snapshot lists (`append_cases`, `overwrite_cases`).
-/

namespace Compaction

/-- Whether a snapshot of the table could list this. -/
structure Manifest.Sound (t : Table) (s : Storage) (m : Manifest) : Prop where
  keys : (m.map Entry.key).Nodup
  nodup : m.files.Nodup
  stored : ∀ f ∈ m.files, s.Stores f
  placed : m.Each fun key f => ∀ r ∈ s.rowsOf f, t.keysOf? r = some key.1
  printed : ∀ f ∈ m.files, ∀ r ∈ s.rowsOf f, r.prints

/-- Whether files are numbered and the latest snapshot is sound, and the disk takes all spill directories. -/
structure Storage.Sound (t : Table) (s : Storage) : Prop where
  numbered : s.Numbered
  manifest : s.manifest.Sound t s
  willing : s.host.disk.Willing

variable {t : Table} {s s' : Storage} {m : Manifest} {rows : List Row} {fragments : List Fragment}
variable {user kind : String}

namespace Manifest

theorem Sound.extends (hm : m.Sound t s) (h : s.Extends s') : m.Sound t s' := by
  refine ⟨hm.keys, hm.nodup, fun f hf => h.stores (hm.stored f hf), fun e he f hf r hr => ?_, fun f hf r hr => ?_⟩
  · rw [h.rowsOf_eq (hm.stored f (mem_files.2 ⟨e, he, hf⟩))] at hr
    exact hm.placed e he f hf r hr
  · rw [h.rowsOf_eq (hm.stored f hf)] at hr
    exact hm.printed f hf r hr

theorem Sound.prints_of_mem_rowsIn (hm : m.Sound t s) : ∀ r ∈ s.rowsIn m, r.prints := by
  intro r hr
  obtain ⟨f, hf, hr⟩ := List.mem_flatMap.1 hr
  exact hm.printed f hf r hr

/-- Every row belongs to the partition of some bucket. -/
theorem Sound.exists_keysOf? (hm : m.Sound t s) {r : Row} (hr : r ∈ s.rowsIn m) : ∃ keys, t.keysOf? r = some keys := by
  obtain ⟨f, hf, hr⟩ := List.mem_flatMap.1 hr
  obtain ⟨e, he, hf⟩ := mem_files.1 hf
  exact ⟨_, hm.placed e he f hf r hr⟩

/-- Choosing buckets by their partitions is choosing rows by theirs. -/
theorem Sound.rowsIn_filter (hm : m.Sound t s) (p : Option (List (Option Key)) → Bool) :
    s.rowsIn (m.filter fun e => p (some e.partition.keys)) = (s.rowsIn m).filter fun r => p (t.keysOf? r) := by
  have hp := hm.placed
  clear hm
  induction m with
  | nil => rfl
  | cons e rest ih =>
    have hrest := ih fun e' he' => hp e' (List.mem_cons_of_mem _ he')
    -- the rows of one bucket stay or go together
    have hrows : ∀ r ∈ e.files.flatMap s.rowsOf, t.keysOf? r = some e.partition.keys := by
      intro r hr
      obtain ⟨f, hf, hr⟩ := List.mem_flatMap.1 hr
      exact hp e (by simp) f hf r hr
    have hsplit : ∀ l, s.rowsIn (e :: l) = e.files.flatMap s.rowsOf ++ s.rowsIn l := fun l => by
      simp [Storage.rowsIn, files]
    rw [hsplit, List.filter_append, ← hrest]
    cases h : p (some e.partition.keys) with
    | false =>
      have hnone : (e.files.flatMap s.rowsOf).filter (fun r => p (t.keysOf? r)) = [] := by
        rw [List.filter_eq_nil_iff]
        intro r hr
        simp [hrows r hr, h]
      rw [List.filter_cons_of_neg (by simp [h]), hnone, List.nil_append]
    | true =>
      have hall : (e.files.flatMap s.rowsOf).filter (fun r => p (t.keysOf? r)) = e.files.flatMap s.rowsOf := by
        rw [List.filter_eq_self]
        intro r hr
        rw [hrows r hr, h]
      rw [List.filter_cons_of_pos (by exact h), hsplit, hall]

/-- Leaving out partitions leaves out the rows that belong to them. -/
private theorem Sound.rowsIn_without (hm : m.Sound t s) (replaced : List (List (Option Key))) :
    s.rowsIn (m.without replaced) = (s.rowsIn m).filter fun r => t.keysOf? r ∉ replaced.map some := by
  rw [← hm.rowsIn_filter fun keys => decide (keys ∉ replaced.map some), without]
  simp

/-- A commit keeps a manifest sound if what it brings is new, stored, in its place and has a text. -/
theorem Sound.committed (hm : m.Sound t s) (hb : ∀ f ∈ fragments, f.before.Nodup) (hadmits : m.Admits fragments)
    (hnew : (m.files ++ fragments.flatMap Fragment.brought).Nodup)
    (hst : ∀ f ∈ fragments, ∀ x ∈ f.brought, s.Stores x)
    (hpl : ∀ f ∈ fragments, ∀ x ∈ f.brought, ∀ r ∈ s.rowsOf x, t.keysOf? r = some f.partition.keys)
    (hpr : ∀ f ∈ fragments, ∀ x ∈ f.brought, ∀ r ∈ s.rowsOf x, r.prints) : (m.committed fragments).Sound t s := by
  have hfiles := files_committed hm.nodup hb hadmits
  -- every file that is listed afterwards was listed or is brought
  have hfrom : ∀ x ∈ (m.committed fragments).files, x ∈ m.files ∨ ∃ f ∈ fragments, x ∈ f.brought := by
    intro x hx
    have hall := hfiles.mem_iff.2 (List.mem_append_right _ hx)
    exact (List.mem_append.1 hall).imp_right List.mem_flatMap.1
  refine ⟨nodup_keys_committed hm.keys, ?_, ?_, hm.placed.committed hpl, ?_⟩
  · exact (List.nodup_append.1 (hfiles.nodup_iff.1 hnew)).2.1
  · intro x hx
    rcases hfrom x hx with h | ⟨f, hf, hx⟩
    · exact hm.stored x h
    · exact hst f hf x hx
  · intro x hx
    rcases hfrom x hx with h | ⟨f, hf, hx⟩
    · exact hm.printed x h
    · exact hpr f hf x hx

end Manifest

namespace Storage

theorem sound_empty (t : Table) : Sound t {} :=
  ⟨rfl, ⟨List.nodup_nil, List.nodup_nil, by simp [Storage.manifest, latest?, Manifest.files],
    by simp [Storage.manifest, latest?, Manifest.Each], by simp [Storage.manifest, latest?, Manifest.files]⟩,
    fun _ => rfl⟩

theorem manifest_withSnapshot (s : Storage) (user kind : String) (m : Manifest) :
    (s.withSnapshot user kind m).manifest = m := by
  simp [Storage.manifest, latest?, withSnapshot]

theorem sound_withSnapshot (hs : s.Numbered) (hm : m.Sound t s) (hw : s.host.disk.Willing) :
    Sound t (s.withSnapshot user kind m) := by
  refine ⟨hs, ?_, hw⟩
  rw [manifest_withSnapshot]
  exact ⟨hm.keys, hm.nodup, hm.stored, hm.placed, hm.printed⟩

/-- Files that no snapshot lists change nothing. -/
theorem Sound.writes {files : List DataFile} (hs : s.Sound t) (h : s.Writes s' files) : s'.Sound t := by
  refine ⟨h.numbered, ?_, ?_⟩
  · rw [h.manifest]
    exact hs.manifest.extends h.extends_
  · rw [h.host]
    exact hs.willing

theorem files_none (s : Storage) : s.files none none = s.manifest.files := by
  simp [Storage.files]

theorem Sound.readRows_none (hs : s.Sound t) : s.readRows none = .ok (s.rowsIn s.manifest) := by
  rw [readRows, files_none, read_eq_ok.2 ⟨hs.manifest.stored, rfl⟩]
  rfl

theorem files_partition (s : Storage) (p : Partition) (bucket : Option Int) :
    s.files (some p) bucket = Manifest.files
      ((s.manifest.filter (·.partition.keys = p.keys)).filter fun e => bucket.all (· = e.bucket)) := by
  rw [Storage.files, List.filter_filter]
  refine congrArg Manifest.files (List.filter_congr fun e _ => ?_)
  rw [Option.all_some, Bool.and_comm, decide_eq_decide.2 eq_comm]

/-- The files of a partition hold the live rows that belong to it. -/
theorem Sound.read_partition (hs : s.Sound t) (p : Partition) :
    s.read (s.files (some p) none) = .ok ((s.rowsIn s.manifest).filter (t.keysOf? · = some p.keys)) := by
  have hrows := hs.manifest.rowsIn_filter fun keys => decide (keys = some p.keys)
  simp only [Option.some.injEq] at hrows
  have hbuckets : ∀ m : Manifest, m.filter (fun e => (none : Option Int).all (· = e.bucket)) = m := fun m =>
    List.filter_eq_self.2 fun _ _ => rfl
  rw [← hrows, files_partition, hbuckets]
  refine read_eq_ok.2 ⟨fun f hf => hs.manifest.stored f ?_, rfl⟩
  exact (List.filter_sublist.flatMap _).subset hf

/-! ### New snapshots -/

/-- Whether a storage has come to one more snapshot, of some buckets that are kept and of new files with the given
rows. -/
structure Publishes (t : Table) (s : Storage) (kept : Manifest) (rows : List Row) (s' : Storage) : Prop where
  sublist : kept.Sublist s.manifest
  extends_ : s.Extends s'
  sound : s'.Sound t
  files : ∃ new : List DataFile, s'.manifest.files.Perm (kept.files ++ new) ∧ (∀ f ∈ new, ¬ s.Stores f) ∧
    (new.flatMap s'.rowsOf).Perm rows

variable {kept : Manifest}

theorem Publishes.rowsIn (h : s.Publishes t kept rows s') (hs : s.Sound t) :
    (s'.rowsIn s'.manifest).Perm (s.rowsIn kept ++ rows) := by
  obtain ⟨new, hfiles, -, hrows⟩ := h.files
  have hkept : kept.files.flatMap s'.rowsOf = s.rowsIn kept := by
    refine h.extends_.flatMap_rowsOf fun f hf => hs.manifest.stored f ?_
    exact (h.sublist.flatMap _).subset hf
  refine (hfiles.flatMap_right _).trans ?_
  rw [List.flatMap_append, hkept]
  exact hrows.append_left _

/-- Files that are stored and not live stay so. -/
theorem Publishes.nodup_append (h : s.Publishes t kept rows s') {pending : List DataFile}
    (hst : ∀ f ∈ pending, s.Stores f) (hn : (s.manifest.files ++ pending).Nodup) :
    (s'.manifest.files ++ pending).Nodup := by
  obtain ⟨new, hfiles, hnew, -⟩ := h.files
  have hlive := hfiles.nodup_iff.1 h.sound.manifest.nodup
  refine List.Nodup.append h.sound.manifest.nodup (List.nodup_append.1 hn).2.1 ?_
  intro f hf hp
  rcases List.mem_append.1 (hfiles.mem_iff.1 hf) with hf | hf
  · exact List.disjoint_of_nodup_append hn ((h.sublist.flatMap _).subset hf) hp
  · exact hnew f hf (hst f hp)

end Storage

namespace Table

/-! ### Appending -/

/-- The fragment that adds the file of a group. -/
def addition (e : Group × DataFile) : Fragment :=
  { partition := e.1.partition, bucket := e.1.bucket, added := [e.2] }

theorem flatMap_brought_additions (written : List (Group × DataFile)) :
    (written.map addition).flatMap Fragment.brought = written.map Prod.snd := by
  rw [List.flatMap_map]
  exact List.map_eq_flatMap.symm

private theorem flatMap_before_additions (written : List (Group × DataFile)) :
    (written.map addition).flatMap Fragment.before = [] := by
  rw [List.flatMap_map, List.flatMap_eq_nil_iff]
  intro e _
  rfl

/-- An append fails with the grouping of its rows, has none to write, fails to write a group, or commits the files of
the groups. -/
theorem append_eq (t : Table) (rows : List Row) (bucket : Option Int) (user : String) (s : Storage) :
    (∃ fault, t.group (t.bucketFor bucket) rows = .error fault ∧ t.append rows bucket user s = (.error fault, s)) ∨
    (t.group (t.bucketFor bucket) rows = .ok [] ∧ t.append rows bucket user s = (.ok none, s)) ∨
    (∃ groups before, t.group (t.bucketFor bucket) rows = .ok groups ∧ ¬ Printed groups ∧
      t.append rows bucket user s = (.error .unprintable, (storeGroups before s).2)) ∨
    ∃ groups, t.group (t.bucketFor bucket) rows = .ok groups ∧ groups ≠ [] ∧ Printed groups ∧
      t.append rows bucket user s =
        ((t.apply user "APPEND" ((storeGroups groups s).1.map addition) (storeGroups groups s).2).1.map some,
          (t.apply user "APPEND" ((storeGroups groups s).1.map addition) (storeGroups groups s).2).2) := by
  rw [append, Effect.ofExcept_bind]
  cases t.group (t.bucketFor bucket) rows with
  | error fault => exact .inl ⟨fault, rfl, rfl⟩
  | ok groups =>
    cases groups with
    | nil => exact .inr (.inl ⟨rfl, rfl⟩)
    | cons g rest =>
      simp only [List.isEmpty_cons, Bool.false_eq_true, if_false]
      rcases writeGroups_cases (g :: rest) s with ⟨hprints, e⟩ | ⟨hprints, before, -, e⟩
      · refine .inr (.inr (.inr ⟨g :: rest, rfl, List.cons_ne_nil g rest, hprints, ?_⟩))
        rw [Effect.bind_of_ok e, Effect.map_apply]
        rfl
      · exact .inr (.inr (.inl ⟨g :: rest, before, rfl, hprints, Effect.bind_of_error e⟩))

/-- An append leaves files that no snapshot lists, or it commits the files of the groups of its rows. -/
theorem append_changes (t : Table) (rows : List Row) (bucket : Option Int) (user : String) (s : Storage) :
    (∃ groups, (t.append rows bucket user s).2 = (storeGroups groups s).2) ∨
    ∃ groups, t.group (t.bucketFor bucket) rows = .ok groups ∧ Printed groups ∧ (t.append rows bucket user s).2 =
      (t.apply user "APPEND" ((storeGroups groups s).1.map addition) (storeGroups groups s).2).2 := by
  rcases t.append_eq rows bucket user s with
    ⟨fault, -, e⟩ | ⟨-, e⟩ | ⟨groups, before, -, -, e⟩ | ⟨groups, hgroups, -, hprints, e⟩
  · exact .inl ⟨[], congrArg Prod.snd e⟩
  · exact .inl ⟨[], congrArg Prod.snd e⟩
  · exact .inl ⟨before, congrArg Prod.snd e⟩
  · exact .inr ⟨groups, hgroups, hprints, congrArg Prod.snd e⟩

/-- The files of groups are published by one commit. -/
theorem publishes_additions {bucketOf : Row → Except Fault Int} {groups : List Group} (hs : s.Sound t)
    (hg : t.Grouped bucketOf rows groups) (hprints : Printed groups) (user kind : String) : ∃ id s',
      t.apply user kind ((storeGroups groups s).1.map addition) (storeGroups groups s).2 = (.ok id, s') ∧
        s.Publishes t s.manifest rows s' := by
  have hw := writes_storeGroups groups hs.numbered
  have hrows := flatMap_rowsOf_storeGroups groups hs.numbered
  have hplaced := rowsOf_storeGroups groups hs.numbered
  have hmem : ∀ e ∈ (storeGroups groups s).1, e.1 ∈ groups := fun e he => mem_storeGroups he
  generalize (storeGroups groups s).1 = written, (storeGroups groups s).2 = s₁ at hw hrows hplaced hmem ⊢
  have hs₁ := hs.writes hw
  -- nothing is replaced, so the commit is admitted
  have hnil : ∀ f ∈ written.map addition, f.before = [] := by
    intro f hf
    obtain ⟨e, -, rfl⟩ := List.mem_map.1 hf
    rfl
  have hadmits : s₁.manifest.Admits (written.map addition) := Manifest.admits_of_before_eq_nil hnil
  have hkey : ∀ f ∈ written.map addition, f.partition.isKey := by
    intro f hf
    obtain ⟨e, he, rfl⟩ := List.mem_map.1 hf
    exact hg.isKey e.1 (hmem e he)
  have hfiles := Manifest.files_committed hs₁.manifest.nodup (fun f hf => by simp [hnil f hf]) hadmits
  rw [flatMap_brought_additions, flatMap_before_additions, List.nil_append] at hfiles
  have hnew : (s₁.manifest.files ++ written.map Prod.snd).Nodup := by
    rw [hw.manifest]
    exact hw.nodup_append hs.manifest.stored hs.manifest.nodup
  refine ⟨_, _, t.apply_of_admits user kind hkey hadmits, .refl _, hw.extends_, ?_, written.map Prod.snd, ?_, hw.fresh,
    (List.Perm.of_eq hrows).trans hg.perm⟩
  · refine Storage.sound_withSnapshot hw.numbered
      (hs₁.manifest.committed (fun f hf => by simp [hnil f hf]) hadmits ?_ ?_ ?_ ?_) hs₁.willing
    · rwa [flatMap_brought_additions]
    · intro f hf x hx
      obtain ⟨e, he, rfl⟩ := List.mem_map.1 hf
      exact hw.stored x (List.mem_map.2 ⟨e, he, (List.mem_singleton.1 hx).symm⟩)
    · intro f hf x hx r hr
      obtain ⟨e, he, rfl⟩ := List.mem_map.1 hf
      rw [List.mem_singleton.1 hx, hplaced e he] at hr
      exact (hg.placed e.1 (hmem e he) r hr).1
    · intro f hf x hx r hr
      obtain ⟨e, he, rfl⟩ := List.mem_map.1 hf
      rw [List.mem_singleton.1 hx, hplaced e he] at hr
      exact hprints e.1 (hmem e he) r hr
  · rw [Storage.manifest_withSnapshot, ← hw.manifest]
    exact hfiles.symm

theorem append_cases (hs : s.Sound t) (rows : List Row) (bucket : Option Int) (user : String) :
    (∃ fault s' files, t.append rows bucket user s = (.error fault, s') ∧ s.Writes s' files) ∨
    (rows = [] ∧ t.append rows bucket user s = (.ok none, s)) ∨
    ∃ id s', t.append rows bucket user s = (.ok (some id), s') ∧ s.Publishes t s.manifest rows s' := by
  rcases t.append_eq rows bucket user s with
    ⟨fault, -, e⟩ | ⟨hgroups, e⟩ | ⟨groups, before, -, -, e⟩ | ⟨groups, hgroups, -, hprints, e⟩
  · exact .inl ⟨fault, s, [], e, .nil hs.numbered⟩
  · exact .inr (.inl ⟨(grouped_of_group hgroups).eq_nil_iff.1 rfl, e⟩)
  · exact .inl ⟨_, _, _, e, writes_storeGroups before hs.numbered⟩
  · obtain ⟨id, s', happly, hpub⟩ := publishes_additions hs (grouped_of_group hgroups) hprints user "APPEND"
    rw [happly] at e
    exact .inr (.inr ⟨id, s', e, hpub⟩)

/-! ### Overwriting -/

/-- The bucket that the file of a group has to itself. -/
def replacement (e : Group × DataFile) : Entry := ⟨e.1.partition, 0, [e.2]⟩

theorem files_append_replacements (m : Manifest) (written : List (Group × DataFile)) :
    Manifest.files (m ++ written.map replacement) = m.files ++ written.map Prod.snd := by
  rw [Manifest.files, List.flatMap_append, List.flatMap_map]
  exact congrArg (m.files ++ ·) List.map_eq_flatMap.symm

theorem keys_replacements {groups : List Group} {written : List (Group × DataFile)}
    (hg : t.Grouped (fun _ => .ok 0) rows groups) (hw : written.map Prod.fst = groups) :
    (written.map replacement).map Entry.key = groups.map Group.key := by
  subst hw
  rw [List.map_map, List.map_map]
  refine List.map_congr_left fun e he => ?_
  have hmem := List.mem_map_of_mem (f := Prod.fst) he
  obtain ⟨r, hr⟩ := List.exists_mem_of_ne_nil _ (hg.nonempty _ hmem)
  have hbucket := Except.ok.inj (hg.placed _ hmem r hr).2
  simp [replacement, Entry.key, Group.key, ← hbucket]

/-- Overwriting fails with the grouping of its rows, has none to write, fails to write a group, or adds a snapshot with
the files of the groups of the rows. -/
theorem overwrite_eq (t : Table) (rows : List Row) (user : String) (s : Storage) :
    (∃ fault, t.group (fun _ => .ok 0) rows = .error fault ∧ t.overwrite rows user s = (.error fault, s)) ∨
    (t.group (fun _ => .ok 0) rows = .ok [] ∧ t.overwrite rows user s = (.ok none, s)) ∨
    (∃ groups before, t.group (fun _ => .ok 0) rows = .ok groups ∧ ¬ Printed groups ∧
      t.overwrite rows user s = (.error .unprintable, (storeGroups before s).2)) ∨
    ∃ groups, t.group (fun _ => .ok 0) rows = .ok groups ∧ groups ≠ [] ∧ Printed groups ∧
      t.overwrite rows user s = (.ok (some ((storeGroups groups s).2.snapshots.length + 1)),
        (storeGroups groups s).2.withSnapshot user "OVERWRITE" (Manifest.filled
          ((storeGroups groups s).2.manifest.without (groups.map fun g => g.partition.keys) ++
            (storeGroups groups s).1.map replacement))) := by
  rw [overwrite, Effect.ofExcept_bind]
  cases t.group (fun _ => .ok 0) rows with
  | error fault => exact .inl ⟨fault, rfl, rfl⟩
  | ok groups =>
    cases groups with
    | nil => exact .inr (.inl ⟨rfl, rfl⟩)
    | cons g rest =>
      simp only [List.isEmpty_cons, Bool.false_eq_true, if_false]
      rcases writeGroups_cases (g :: rest) s with ⟨hprints, e⟩ | ⟨hprints, before, -, e⟩
      · refine .inr (.inr (.inr ⟨g :: rest, rfl, List.cons_ne_nil g rest, hprints, ?_⟩))
        rw [Effect.bind_of_ok e, Effect.get_bind, Effect.map_apply, Effect.ofChange_apply]
        rfl
      · exact .inr (.inr (.inl ⟨g :: rest, before, rfl, hprints, Effect.bind_of_error e⟩))

/-- Overwriting leaves files that no snapshot lists, or it adds a snapshot with the files of the groups of the rows. -/
theorem overwrite_changes (t : Table) (rows : List Row) (user : String) (s : Storage) :
    (∃ groups, (t.overwrite rows user s).2 = (storeGroups groups s).2) ∨
    ∃ groups, t.group (fun _ => .ok 0) rows = .ok groups ∧ Printed groups ∧ (t.overwrite rows user s).2 =
      (storeGroups groups s).2.withSnapshot user "OVERWRITE" (Manifest.filled
        ((storeGroups groups s).2.manifest.without (groups.map fun g => g.partition.keys) ++
          (storeGroups groups s).1.map replacement)) := by
  rcases t.overwrite_eq rows user s with
    ⟨fault, -, e⟩ | ⟨-, e⟩ | ⟨groups, before, -, -, e⟩ | ⟨groups, hgroups, -, hprints, e⟩
  · exact .inl ⟨[], congrArg Prod.snd e⟩
  · exact .inl ⟨[], congrArg Prod.snd e⟩
  · exact .inl ⟨before, congrArg Prod.snd e⟩
  · exact .inr ⟨groups, hgroups, hprints, congrArg Prod.snd e⟩

/-- A bucket that is kept is in none of the partitions that are left out. -/
private theorem fst_notMem_of_without {m : Manifest} {left : List (List (Option Key))} {key : BucketKey}
    (h : key ∈ (m.without left).map Entry.key) : key.1 ∉ left := by
  obtain ⟨e, he, rfl⟩ := List.mem_map.1 h
  have hout := (List.mem_filter.1 he).2
  rwa [Bool.not_eq_true', ← Bool.not_eq_true, List.contains_iff_mem] at hout

/-- The files of groups are published in the place of their partitions. -/
private theorem publishes_replacements {groups : List Group} (hs : s.Sound t)
    (hg : t.Grouped (fun _ => .ok 0) rows groups) (hprints : Printed groups) (user kind : String) :
    s.Publishes t (s.manifest.without (groups.map fun g => g.partition.keys)) rows
      ((storeGroups groups s).2.withSnapshot user kind (Manifest.filled
        (s.manifest.without (groups.map fun g => g.partition.keys) ++ (storeGroups groups s).1.map replacement))) := by
  have hw := writes_storeGroups groups hs.numbered
  have hrows := flatMap_rowsOf_storeGroups groups hs.numbered
  have hplaced := rowsOf_storeGroups groups hs.numbered
  have hkeys := keys_replacements hg (fst_storeGroups groups s)
  have hmem : ∀ e ∈ (storeGroups groups s).1, e.1 ∈ groups := fun e he => mem_storeGroups he
  have hkept := s.manifest.without_sublist (groups.map fun g => g.partition.keys)
  generalize (storeGroups groups s).1 = written, (storeGroups groups s).2 = s₁ at hw hrows hplaced hkeys hmem ⊢
  have hold := hs.manifest.extends hw.extends_
  have hwilling : s₁.host.disk.Willing := (hs.writes hw).willing
  have hfiles := files_append_replacements (s.manifest.without (groups.map fun g => g.partition.keys)) written
  refine ⟨hkept, hw.extends_, Storage.sound_withSnapshot hw.numbered ⟨?_, ?_, ?_, ?_, ?_⟩ hwilling,
    written.map Prod.snd, ?_, hw.fresh, (List.Perm.of_eq hrows).trans hg.perm⟩
  · refine Manifest.nodup_keys_filled ?_
    rw [List.map_append, hkeys]
    refine List.Nodup.append (hold.keys.sublist (hkept.map _)) hg.nodup ?_
    intro key hkept' hkey
    obtain ⟨g, hgm, hsame⟩ := List.mem_map.1 hkey
    exact fst_notMem_of_without hkept' (List.mem_map.2 ⟨g, hgm, congrArg Prod.fst hsame⟩)
  · rw [Manifest.files_filled, hfiles]
    refine hw.nodup_append (fun f hf => ?_) (hs.manifest.nodup.sublist (hkept.flatMap _))
    exact hs.manifest.stored f ((hkept.flatMap _).subset hf)
  · rw [Manifest.files_filled, hfiles]
    intro f hf
    rcases List.mem_append.1 hf with hf | hf
    · exact hold.stored f ((hkept.flatMap _).subset hf)
    · exact hw.stored f hf
  · refine Manifest.Each.sublist ?_ List.filter_sublist
    intro e he f hf r hr
    rcases List.mem_append.1 he with he | he
    · exact hold.placed e (hkept.subset he) f hf r hr
    · obtain ⟨x, hx, rfl⟩ := List.mem_map.1 he
      rw [List.mem_singleton.1 hf, hplaced x hx] at hr
      exact (hg.placed x.1 (hmem x hx) r hr).1
  · rw [Manifest.files_filled, hfiles]
    intro f hf r hr
    rcases List.mem_append.1 hf with hf | hf
    · exact hold.printed f ((hkept.flatMap _).subset hf) r hr
    · obtain ⟨x, hx, rfl⟩ := List.mem_map.1 hf
      rw [hplaced x hx] at hr
      exact hprints x.1 (hmem x hx) r hr
  · rw [Storage.manifest_withSnapshot, Manifest.files_filled, hfiles]

/-- Overwriting fails only on rows that have no partition or no text. The rows that stay are those of other
partitions. -/
theorem overwrite_cases (hs : s.Sound t) (rows : List Row) (user : String) :
    (∃ fault, t.group (fun _ => .ok 0) rows = .error fault ∧ t.overwrite rows user s = (.error fault, s)) ∨
    ((¬ ∀ r ∈ rows, r.prints) ∧
      ∃ s' files, t.overwrite rows user s = (.error .unprintable, s') ∧ s.Writes s' files) ∨
    (rows = [] ∧ t.overwrite rows user s = (.ok none, s)) ∨
    ∃ id s' kept, t.overwrite rows user s = (.ok (some id), s') ∧ s.Publishes t kept rows s' ∧
      s.rowsIn kept = (s.rowsIn s.manifest).filter fun r => ¬ t.SharesPartition rows r := by
  rcases t.overwrite_eq rows user s with
    ⟨fault, hfault, e⟩ | ⟨hgroups, e⟩ | ⟨groups, before, hgroups, hprints, e⟩ | ⟨groups, hgroups, -, hprints, e⟩
  · exact .inl ⟨fault, hfault, e⟩
  · exact .inr (.inr (.inl ⟨(grouped_of_group hgroups).eq_nil_iff.1 rfl, e⟩))
  · have hwrites := writes_storeGroups before hs.numbered
    exact .inr (.inl ⟨fun h => hprints ((grouped_of_group hgroups).printed_iff.2 h), _, _, e, hwrites⟩)
  · have hg := grouped_of_group hgroups
    have hw := writes_storeGroups groups hs.numbered
    rw [hw.manifest] at e
    refine .inr (.inr (.inr ⟨_, _, _, e, publishes_replacements hs hg hprints user "OVERWRITE", ?_⟩))
    rw [hs.manifest.rowsIn_without]
    refine List.filter_congr fun r hr => ?_
    obtain ⟨keys, hkeys⟩ := hs.manifest.exists_keysOf? hr
    have hsome : Function.Injective (some (α := List (Option Key))) := fun _ _ => Option.some.inj
    have hmem : _ ↔ some keys ∈ rows.map t.keysOf? := hg.mem_keys_iff
    refine decide_eq_decide.2 (not_congr ?_)
    rw [SharesPartition, hkeys]
    exact (List.mem_map_of_injective hsome).trans hmem

theorem exists_overwrite (hs : s.Sound t) (hrows : ∀ r ∈ rows, ∃ keys, t.keysOf? r = some keys)
    (hprints : ∀ r ∈ rows, r.prints) (user : String) : ∃ id s', t.overwrite rows user s = (.ok id, s') := by
  rcases t.overwrite_cases hs rows user with ⟨fault, hg, -⟩ | ⟨hnot, -⟩ | ⟨-, e⟩ | ⟨id, s', -, e, -⟩
  · obtain ⟨groups, hgroups⟩ := exists_group hrows fun _ _ => ⟨0, rfl⟩
    rw [hg] at hgroups
    cases hgroups
  · exact absurd hprints hnot
  · exact ⟨none, s, e⟩
  · exact ⟨some id, s', e⟩

/-- Whatever rows are written, a storage stays sound. -/
theorem sound_overwrite (hs : s.Sound t) {result : Except Fault (Option Nat)}
    (h : t.overwrite rows user s = (result, s')) : s'.Sound t := by
  rcases t.overwrite_cases hs rows user with
    ⟨fault, -, e⟩ | ⟨-, s'', files, e, hw⟩ | ⟨-, e⟩ | ⟨id, s'', kept, e, hpub, -⟩
  · cases h.symm.trans e
    exact hs
  · cases h.symm.trans e
    exact hs.writes hw
  · cases h.symm.trans e
    exact hs
  · cases h.symm.trans e
    exact hpub.sound

end Table

end Compaction
