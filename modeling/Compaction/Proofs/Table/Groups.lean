import Compaction.Proofs.Table.Contents
import Compaction.Proofs.Table.Manifest
import Compaction.Table.Commit

/-!
# Rows by partition and bucket

Grouping loses no row and repeats none, and every group holds rows of its own partition and bucket (`Grouped`,
`grouped_of_group`), by one of which it is named (`exists_partitionOf_of_group`). It fails only on rows without a
partition or a bucket (`exists_group`). Each group is stored in a new file of its own (`writes_storeGroups`,
`rowsOf_storeGroups`); they are written if all their rows have a text (`writeGroups_cases`).
-/

namespace Compaction.Table

/-- What the partition of a row is found by, if it has one. -/
def keysOf? (t : Table) (r : Row) : Option (List (Option Key)) :=
  match t.partitionOf r with
  | .ok p => if p.isKey then some p.keys else none
  | .error _ => none

/-- Whether a row belongs to the partition of one of these rows. -/
def SharesPartition (t : Table) (rows : List Row) (r : Row) : Prop := t.keysOf? r ∈ rows.map t.keysOf?

instance (t : Table) (rows : List Row) : DecidablePred (t.SharesPartition rows) := fun r =>
  inferInstanceAs (Decidable (t.keysOf? r ∈ rows.map t.keysOf?))

/-- What grouping makes of rows. -/
structure Grouped (t : Table) (bucketOf : Row → Except Fault Int) (rows : List Row) (groups : List Group) : Prop where
  perm : (groups.flatMap Group.rows).Perm rows
  nodup : (groups.map Group.key).Nodup
  nonempty : ∀ g ∈ groups, g.rows ≠ []
  isKey : ∀ g ∈ groups, g.partition.isKey
  placed : ∀ g ∈ groups, ∀ r ∈ g.rows, t.keysOf? r = some g.partition.keys ∧ bucketOf r = .ok g.bucket

variable {t : Table} {bucketOf : Row → Except Fault Int} {r : Row} {rows : List Row} {groups : List Group}

theorem partitionOf_eq_ok {p : Partition} :
    t.partitionOf r = .ok p ↔ (∀ k ∈ t.keys, r.get? k = some (r.get k)) ∧ t.keys.map r.get = p := by
  unfold partitionOf
  rw [Except.mapM_eq_ok]
  generalize t.keys = names
  induction names generalizing p with
  | nil => simp [eq_comm]
  | cons k rest ih =>
    rw [List.forall₂_cons_left_iff, List.forall_mem_cons, List.map_cons, Row.get]
    cases hk : r.get? k with
    | none => simp
    | some v =>
      constructor
      · rintro ⟨v', p', hv, hrest, rfl⟩
        cases hv
        obtain ⟨hcolumns, rfl⟩ := ih.1 hrest
        exact ⟨⟨rfl, hcolumns⟩, rfl⟩
      · rintro ⟨⟨-, hrest⟩, rfl⟩
        exact ⟨v, _, rfl, ih.2 ⟨hrest, rfl⟩, rfl⟩

theorem keysOf?_eq_some {keys : List (Option Key)} :
    t.keysOf? r = some keys ↔ ∃ p, t.partitionOf r = .ok p ∧ p.isKey ∧ p.keys = keys := by
  unfold keysOf?
  cases t.partitionOf r with
  | error f => simp
  | ok p => simp

theorem sharesPartition_of_mem (h : r ∈ rows) : t.SharesPartition rows r := List.mem_map_of_mem h

theorem SharesPartition.perm {rows' : List Row} (h : t.SharesPartition rows r) (hp : rows.Perm rows') :
    t.SharesPartition rows' r := (hp.map _).subset h

/-! ### Adding a row to its group -/

private theorem keys_addToGroup (p : Partition) (bucket : Int) (r : Row) (groups : List Group) :
    (addToGroup p bucket r groups).map Group.key =
      if (p.keys, bucket) ∈ groups.map Group.key then groups.map Group.key
      else groups.map Group.key ++ [(p.keys, bucket)] := by
  induction groups with
  | nil => rfl
  | cons g rest ih =>
    by_cases h : g.key = (p.keys, bucket)
    · have h' : ({ g with rows := g.rows ++ [r] } : Group).key = (p.keys, bucket) := h
      simp [addToGroup, h, h']
    · simp only [addToGroup, h, if_false, List.map_cons, ih, List.mem_cons, Ne.symm h, false_or]
      split <;> rfl

private theorem nodup_keys_addToGroup (h : (groups.map Group.key).Nodup) (p : Partition) (bucket : Int) (r : Row) :
    ((addToGroup p bucket r groups).map Group.key).Nodup := by
  rw [keys_addToGroup]
  split
  · exact h
  · next hk =>
    refine List.Nodup.append h (List.nodup_singleton _) ?_
    rwa [List.disjoint_singleton]

private theorem perm_addToGroup (p : Partition) (bucket : Int) (r : Row) (groups : List Group) :
    ((addToGroup p bucket r groups).flatMap Group.rows).Perm (groups.flatMap Group.rows ++ [r]) := by
  induction groups with
  | nil => exact .refl _
  | cons g rest ih =>
    rw [addToGroup]
    split
    · rw [List.flatMap_cons, List.flatMap_cons, List.append_assoc, List.append_assoc]
      exact List.perm_append_comm.append_left _
    · rw [List.flatMap_cons, List.flatMap_cons, List.append_assoc]
      exact ih.append_left _

/-- A group after a row was added is one of before, the group of the row, or new. -/
private theorem mem_addToGroup {p : Partition} {bucket : Int} {g : Group} (h : g ∈ addToGroup p bucket r groups) :
    g ∈ groups ∨ (∃ g' ∈ groups, g'.key = (p.keys, bucket) ∧ g = { g' with rows := g'.rows ++ [r] }) ∨
      g = ⟨p, bucket, [r]⟩ := by
  induction groups with
  | nil => exact Or.inr (Or.inr (List.mem_singleton.1 h))
  | cons g' rest ih =>
    rw [addToGroup] at h
    split at h
    · next hk =>
      rcases List.mem_cons.1 h with rfl | h
      · exact Or.inr (Or.inl ⟨g', by simp, hk, rfl⟩)
      · exact Or.inl (List.mem_cons_of_mem _ h)
    · rcases List.mem_cons.1 h with rfl | h
      · exact Or.inl (by simp)
      · rcases ih h with h | ⟨g₁, hg₁, e⟩ | h
        · exact Or.inl (List.mem_cons_of_mem _ h)
        · exact Or.inr (Or.inl ⟨g₁, List.mem_cons_of_mem _ hg₁, e⟩)
        · exact Or.inr (Or.inr h)

/-- A row that is added comes last in its group. -/
private theorem rows_addToGroup (h : (groups.map Group.key).Nodup) (p : Partition) (bucket : Int) (r : Row)
    (key : List (Option Key) × Int) :
    ((addToGroup p bucket r groups).filter (·.key = key)).flatMap Group.rows =
      (groups.filter (·.key = key)).flatMap Group.rows ++ if (p.keys, bucket) = key then [r] else [] := by
  induction groups with
  | nil =>
    have hkey : (⟨p, bucket, [r]⟩ : Group).key = (p.keys, bucket) := rfl
    by_cases hk : (p.keys, bucket) = key <;> simp [addToGroup, hkey, hk]
  | cons g rest ih =>
    rw [List.map_cons, List.nodup_cons] at h
    rw [addToGroup]
    split
    · next hg =>
      have hkey : ({ g with rows := g.rows ++ [r] } : Group).key = g.key := rfl
      by_cases hk : (p.keys, bucket) = key
      · -- no other group has the key
        have hrest : rest.filter (·.key = key) = [] := by
          rw [List.filter_eq_nil_iff]
          intro g' hg' hk'
          exact h.1 ((hg.trans hk).trans (of_decide_eq_true hk').symm ▸ List.mem_map_of_mem hg')
        simp [hkey, hg, hk, hrest]
      · simp [hkey, hg, hk]
    · by_cases hk : g.key = key
      · simp [hk, ih h.2]
      · simp [hk, ih h.2]

/-! ### Grouping -/

theorem Grouped.add (h : t.Grouped bucketOf rows groups) {p : Partition} {bucket : Int}
    (hp : t.partitionOf r = .ok p) (hb : bucketOf r = .ok bucket) (hk : p.isKey) :
    t.Grouped bucketOf (rows ++ [r]) (addToGroup p bucket r groups) := by
  refine ⟨(perm_addToGroup ..).trans (h.perm.append_right _), nodup_keys_addToGroup h.nodup .., ?_, ?_, ?_⟩
  · intro g hg
    rcases mem_addToGroup hg with hg | ⟨g', hg', -, rfl⟩ | rfl
    · exact h.nonempty g hg
    · simp
    · simp
  · intro g hg
    rcases mem_addToGroup hg with hg | ⟨g', hg', -, rfl⟩ | rfl
    · exact h.isKey g hg
    · exact h.isKey g' hg'
    · exact hk
  · intro g hg x hx
    rcases mem_addToGroup hg with hg | ⟨g', hg', hkey, rfl⟩ | rfl
    · exact h.placed g hg x hx
    · rcases List.mem_append.1 hx with hx | hx
      · exact h.placed g' hg' x hx
      · rw [List.mem_singleton] at hx
        subst hx
        obtain ⟨hkeys, hbucket⟩ := Prod.mk.inj hkey
        exact ⟨keysOf?_eq_some.2 ⟨p, hp, hk, hkeys.symm⟩, hb.trans (congrArg _ hbucket.symm)⟩
    · rw [List.mem_singleton] at hx
      subst hx
      exact ⟨keysOf?_eq_some.2 ⟨p, hp, hk, rfl⟩, hb⟩

/-- Adds a row to its group, if it has one. -/
private def groupRow (t : Table) (bucketOf : Row → Except Fault Int) (groups : List Group) (r : Row) :
    Except Fault (List Group) := do
  let p ← t.partitionOf r
  let bucket ← bucketOf r
  if p.isKey then return addToGroup p bucket r groups else unhashable

private theorem groupRow_eq_ok {groups' : List Group} : groupRow t bucketOf groups r = .ok groups' ↔
    ∃ p bucket, t.partitionOf r = .ok p ∧ bucketOf r = .ok bucket ∧ p.isKey ∧
      addToGroup p bucket r groups = groups' := by
  have hstep (p : Partition) (bucket : Int) :
      (if p.isKey then return addToGroup p bucket r groups else unhashable : Except Fault (List Group)) = .ok groups' ↔
        p.isKey ∧ addToGroup p bucket r groups = groups' := by
    by_cases hk : p.isKey
    · simp [hk, pure, Except.pure]
    · simp [hk, unhashable]
  simp only [groupRow, Except.bind_eq_ok, hstep, exists_and_left]

/-- The groups so far are those of the rows before, which grow by one row in each step. -/
private theorem grouped_of_foldlM {groups' : List Group} :
    ∀ {before : List Row} {groups : List Group}, t.Grouped bucketOf before groups →
      rows.foldlM (groupRow t bucketOf) groups = .ok groups' → t.Grouped bucketOf (before ++ rows) groups' := by
  induction rows with
  | nil =>
    intro before groups h e
    cases e
    rwa [List.append_nil]
  | cons r rest ih =>
    intro before groups h e
    rw [List.foldlM_cons, Except.bind_eq_ok] at e
    obtain ⟨groups₁, e₁, e⟩ := e
    obtain ⟨p, bucket, hp, hb, hk, rfl⟩ := groupRow_eq_ok.1 e₁
    have := ih (h.add hp hb hk) e
    rwa [List.append_assoc] at this

theorem grouped_of_group (h : t.group bucketOf rows = .ok groups) : t.Grouped bucketOf rows groups := by
  have hnil : t.Grouped bucketOf [] [] := ⟨.refl _, by simp, by simp, by simp, by simp⟩
  exact grouped_of_foldlM hnil h

/-- Rows of one partition and bucket keep their order. -/
theorem rows_of_group (h : t.group bucketOf rows = .ok groups) (key : List (Option Key) × Int) :
    (groups.filter (·.key = key)).flatMap Group.rows =
      rows.filter fun r => t.keysOf? r = some key.1 ∧ (bucketOf r).toOption = some key.2 := by
  -- the groups so far grow by the rows that are left
  have hgrown : ∀ (groups : List Group) {groups' : List Group}, (groups.map Group.key).Nodup →
      rows.foldlM (groupRow t bucketOf) groups = .ok groups' →
        (groups'.filter (·.key = key)).flatMap Group.rows = (groups.filter (·.key = key)).flatMap Group.rows ++
          rows.filter fun r => t.keysOf? r = some key.1 ∧ (bucketOf r).toOption = some key.2 := by
    clear h
    induction rows with
    | nil =>
      intro groups groups' _ e
      cases e
      simp
    | cons r rest ih =>
      intro groups groups' hn e
      rw [List.foldlM_cons, Except.bind_eq_ok] at e
      obtain ⟨groups₁, e₁, e⟩ := e
      obtain ⟨p, bucket, hp, hb, hk, rfl⟩ := groupRow_eq_ok.1 e₁
      have hkeys : t.keysOf? r = some p.keys := keysOf?_eq_some.2 ⟨p, hp, hk, rfl⟩
      have hbucket : (bucketOf r).toOption = some bucket := by rw [hb]; rfl
      rw [ih _ (nodup_keys_addToGroup hn ..) e, rows_addToGroup hn, List.append_assoc, List.filter_cons, hkeys,
        hbucket]
      congr 1
      by_cases hkey : (p.keys, bucket) = key
      · simp [← hkey]
      · have hother : ¬ (p.keys = key.1 ∧ bucket = key.2) := fun hk' => hkey (Prod.ext hk'.1 hk'.2)
        simp [hkey, hother]
  simpa using hgrown [] (by simp) h

/-- Every group is named by the partition of one of its rows. -/
theorem exists_partitionOf_of_group (h : t.group bucketOf rows = .ok groups) :
    ∀ g ∈ groups, ∃ r ∈ g.rows, t.partitionOf r = .ok g.partition := by
  have hnamed : ∀ {groups groups' : List Group}, (∀ g ∈ groups, ∃ r ∈ g.rows, t.partitionOf r = .ok g.partition) →
      rows.foldlM (groupRow t bucketOf) groups = .ok groups' →
        ∀ g ∈ groups', ∃ r ∈ g.rows, t.partitionOf r = .ok g.partition := by
    clear h
    induction rows with
    | nil =>
      intro groups groups' h e
      cases e
      exact h
    | cons r rest ih =>
      intro groups groups' h e
      rw [List.foldlM_cons, Except.bind_eq_ok] at e
      obtain ⟨groups₁, e₁, e⟩ := e
      obtain ⟨p, bucket, hp, -, -, rfl⟩ := groupRow_eq_ok.1 e₁
      refine ih (fun g hg => ?_) e
      rcases mem_addToGroup hg with hg | ⟨g', hg', -, rfl⟩ | rfl
      · exact h g hg
      · obtain ⟨x, hx, hpartition⟩ := h g' hg'
        exact ⟨x, List.mem_append_left _ hx, hpartition⟩
      · exact ⟨r, List.mem_singleton_self r, hp⟩
  exact hnamed (by simp) h

theorem exists_group (h : ∀ r ∈ rows, ∃ keys, t.keysOf? r = some keys)
    (hb : ∀ r ∈ rows, ∃ bucket, bucketOf r = .ok bucket) : ∃ groups, t.group bucketOf rows = .ok groups := by
  suffices ∀ groups, ∃ groups', rows.foldlM (groupRow t bucketOf) groups = .ok groups' from this []
  induction rows with
  | nil => exact fun groups => ⟨groups, rfl⟩
  | cons r rest ih =>
    intro groups
    rw [List.forall_mem_cons] at h hb
    obtain ⟨⟨keys, hr⟩, hrest⟩ := h
    obtain ⟨⟨bucket, hbucket⟩, hbuckets⟩ := hb
    obtain ⟨p, hp, hk, -⟩ := keysOf?_eq_some.1 hr
    obtain ⟨groups', e⟩ := ih hrest hbuckets (addToGroup p bucket r groups)
    refine ⟨groups', ?_⟩
    rw [List.foldlM_cons, groupRow_eq_ok.2 ⟨p, bucket, hp, hbucket, hk, rfl⟩]
    exact e

theorem Grouped.eq_nil_iff (h : t.Grouped bucketOf rows groups) : groups = [] ↔ rows = [] := by
  constructor
  · rintro rfl
    exact h.perm.symm.eq_nil
  · rintro rfl
    rw [List.eq_nil_iff_forall_not_mem]
    intro g hg
    have := List.flatMap_eq_nil_iff.1 h.perm.eq_nil g hg
    exact h.nonempty g hg this

theorem Grouped.mem_keys_iff (h : t.Grouped bucketOf rows groups) {keys : List (Option Key)} :
    keys ∈ groups.map (fun g => g.partition.keys) ↔ some keys ∈ rows.map t.keysOf? := by
  rw [List.mem_map, List.mem_map]
  constructor
  · rintro ⟨g, hg, rfl⟩
    obtain ⟨r, hr⟩ := List.exists_mem_of_ne_nil _ (h.nonempty g hg)
    exact ⟨r, h.perm.subset (List.mem_flatMap.2 ⟨g, hg, hr⟩), (h.placed g hg r hr).1⟩
  · rintro ⟨r, hr, hkeys⟩
    obtain ⟨g, hg, hr⟩ := List.mem_flatMap.1 (h.perm.symm.subset hr)
    rw [(h.placed g hg r hr).1] at hkeys
    exact ⟨g, hg, Option.some.inj hkeys⟩

/-! ### Writing groups -/

/-- Stores each group in a file of level 0. -/
def storeGroups : List Group → Storage → List (Group × DataFile) × Storage
  | [], s => ([], s)
  | g :: rest, s =>
    let (file, s) := s.storeFile g.rows 0
    let (files, s) := storeGroups rest s
    ((g, file) :: files, s)

/-- Whether all rows of the groups have a text. -/
def Printed (groups : List Group) : Prop := ∀ g ∈ groups, ∀ r ∈ g.rows, r.prints

theorem Grouped.printed_iff (h : t.Grouped bucketOf rows groups) : Printed groups ↔ ∀ r ∈ rows, r.prints := by
  constructor
  · intro hprints r hr
    obtain ⟨g, hg, hr⟩ := List.mem_flatMap.1 (h.perm.symm.subset hr)
    exact hprints g hg r hr
  · exact fun hprints g hg r hr => hprints r (h.perm.subset (List.mem_flatMap.2 ⟨g, hg, hr⟩))

variable {s : Storage}

theorem fst_storeGroups (groups : List Group) : ∀ s : Storage, (storeGroups groups s).1.map Prod.fst = groups := by
  induction groups with
  | nil => intro s; rfl
  | cons g rest ih => intro s; simp [storeGroups, ih]

theorem writes_storeGroups (groups : List Group) : ∀ {s : Storage}, s.Numbered →
    s.Writes (storeGroups groups s).2 ((storeGroups groups s).1.map Prod.snd) := by
  induction groups with
  | nil => intro s h; exact .nil h
  | cons g rest ih =>
    intro s h
    have hfirst := Storage.writes_storeFile g.rows 0 h
    exact hfirst.append (ih hfirst.numbered)

theorem rowsOf_storeGroups (groups : List Group) : ∀ {s : Storage}, s.Numbered →
    ∀ e ∈ (storeGroups groups s).1, (storeGroups groups s).2.rowsOf e.2 = e.1.rows := by
  induction groups with
  | nil => intro s _ e he; simp [storeGroups] at he
  | cons g rest ih =>
    intro s h e he
    have hfirst := Storage.writes_storeFile g.rows 0 h
    rcases List.mem_cons.1 he with rfl | he
    · have hrest := (writes_storeGroups rest hfirst.numbered).extends_
      exact (hrest.rowsOf_eq (hfirst.stored _ (List.mem_singleton_self _))).trans (Storage.rowsOf_storeFile g.rows 0 h)
    · exact ih hfirst.numbered e he

theorem mem_storeGroups {e : Group × DataFile} (h : e ∈ (storeGroups groups s).1) : e.1 ∈ groups := by
  rw [← fst_storeGroups groups s]
  exact List.mem_map_of_mem h

/-- The new files hold all rows of the groups, and no others. -/
theorem flatMap_rowsOf_storeGroups (groups : List Group) (h : s.Numbered) :
    ((storeGroups groups s).1.map Prod.snd).flatMap (storeGroups groups s).2.rowsOf = groups.flatMap Group.rows := by
  rw [List.flatMap_map, List.flatMap_congr (rowsOf_storeGroups groups h), ← List.flatMap_map, fst_storeGroups]

/-- Groups are written if all their rows have a text; otherwise those up to the first without are stored. -/
theorem writeGroups_cases (groups : List Group) : ∀ s : Storage,
    (Printed groups ∧ writeGroups groups s = (.ok (storeGroups groups s).1, (storeGroups groups s).2)) ∨
    (¬ Printed groups ∧ ∃ before, before <+: groups ∧
      writeGroups groups s = (.error .unprintable, (storeGroups before s).2)) := by
  induction groups with
  | nil =>
    intro s
    exact .inl ⟨by simp [Printed], rfl⟩
  | cons g rest ih =>
    intro s
    rcases Storage.writeFile_cases g.rows 0 s with ⟨hg, e⟩ | ⟨hg, e⟩
    · rcases ih (s.storeFile g.rows 0).2 with ⟨hrest, e'⟩ | ⟨hrest, before, hbefore, e'⟩
      · refine .inl ⟨List.forall_mem_cons.2 ⟨hg, hrest⟩, ?_⟩
        rw [writeGroups, Effect.bind_of_ok e, Effect.bind_of_ok e']
        rfl
      · refine .inr ⟨fun h => hrest (List.forall_mem_cons.1 h).2, g :: before,
          List.cons_prefix_cons.2 ⟨rfl, hbefore⟩, ?_⟩
        rw [writeGroups, Effect.bind_of_ok e, Effect.bind_of_error e']
        rfl
    · refine .inr ⟨fun h => hg (List.forall_mem_cons.1 h).1, [g], List.cons_prefix_cons.2 ⟨rfl, List.nil_prefix⟩, ?_⟩
      rw [writeGroups, Effect.bind_of_error e]
      rfl

end Compaction.Table
