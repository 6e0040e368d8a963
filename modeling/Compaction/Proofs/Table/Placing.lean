import Compaction.Proofs.Order.Stable
import Compaction.Proofs.Table.Places
import Compaction.Proofs.Table.Sound
import Compaction.Proofs.Value.Form
import Mathlib.Data.Int.ModEq
import Mathlib.Data.List.Lex

/-!
# Equal rows in buckets

Equal rows have the same columns, in any order, and equal values in them (`Row.Equal`). They belong to the same
partition, but their bucket is found by a checksum of values as text. So appending puts equal rows of a table with a
fixed number of buckets together exactly if the checksums leave the same remainder, which they do if equal values in
the bucket columns are of the same form (`Row.Equal.append_together_iff`).
-/

namespace Compaction

/-- Whether two rows have the same columns and equal values in them. -/
structure Row.Equal (r s : Row) : Prop where
  columns : r.columns.Perm s.columns
  values : ∀ k ∈ r.columns, (r.get k).relation (s.get k) = .same

variable {t : Table} {r s : Row} {rows : List Row} {k : String} {key : BucketKey}

/-! ### Columns -/

/-- Texts are compared by their code points. -/
private theorem compareTexts_eq_lt {s t : String} :
    compareTexts s t = .lt ↔ Text.points s.toList < Text.points t.toList := by
  rw [compareTexts]
  generalize Text.points s.toList = ms, Text.points t.toList = ns
  induction ms generalizing ns with
  | nil => cases ns <;> simp [compareLists]
  | cons m ms ih =>
    cases ns with
    | nil => simp [compareLists]
    | cons n ns =>
      rw [compareLists, List.cons_lt_cons_iff, ← ih, Ordering.then_eq_lt, Nat.compare_eq_lt, Nat.compare_eq_eq]

private theorem sorted_texts_of_perm {names names' : List String} (h : names.Perm names') :
    Order.sorted (fun a b => compareTexts a b = .lt) names =
      Order.sorted (fun a b => compareTexts a b = .lt) names' := by
  have hinjective : Function.Injective fun s : String => Text.points s.toList := fun _ _ hst =>
    String.toList_inj.1 (Text.points_injective hst)
  exact Order.sorted_eq_of_perm (fun _ _ => decide_eq_true_iff.trans compareTexts_eq_lt) hinjective h

namespace Row

private theorem get?_eq_some_get : r.get? k = some (r.get k) ↔ k ∈ r.columns := by
  have hnone : r.get? k = none ↔ k ∉ r.columns := by
    rw [get?, List.lookup_eq_none_iff, columns, List.mem_map, not_exists]
    exact forall_congr' fun e => by rw [not_and, bne_iff_ne, ne_comm]
  rw [← not_iff_not, ← hnone, get]
  cases r.get? k <;> simp

private theorem get_of_not_mem (h : k ∉ r.columns) : r.get k = .null := by
  rw [← get?_eq_some_get, get] at h
  rw [get]
  cases hk : r.get? k with
  | none => rfl
  | some v => simp [hk] at h

namespace Equal

private theorem relation_get (h : r.Equal s) (k : String) : (r.get k).relation (s.get k) = .same := by
  by_cases hk : k ∈ r.columns
  · exact h.values k hk
  · rw [get_of_not_mem hk, get_of_not_mem (mt h.columns.mem_iff.2 hk)]
    rfl

/-- Equal rows belong to the same partition, or neither belongs to one. -/
private theorem keysOf?_eq (h : r.Equal s) (t : Table) : t.keysOf? r = t.keysOf? s := by
  have hkey (k : String) : (r.get k).key? = (s.get k).key? := Value.key?_eq_of_relation (h.relation_get k)
  refine Option.ext fun keys => ?_
  simp only [Table.keysOf?_eq_some, Table.partitionOf_eq_ok, get?_eq_some_get, h.columns.mem_iff, and_assoc,
    exists_and_left, exists_eq_left', Partition.isKey, Partition.keys, List.all_map, List.map_map, Function.comp_def,
    hkey]

private theorem bucketColumns_eq (h : r.Equal s) (t : Table) : t.bucketColumns r = t.bucketColumns s := by
  rw [Table.bucketColumns, Table.bucketColumns, sorted_texts_of_perm (h.columns.filter _)]

end Equal

end Row

/-! ### Checksums -/

namespace Table

/-- A row with a text has a bucket. -/
private theorem exists_bucketOf (h : r.prints) (t : Table) : ∃ bucket, t.bucketOf r = .ok bucket := by
  have hall : Value.printsAll ((t.bucketColumns r).map r.get) := by
    rw [Value.printsAll_iff, List.forall_mem_map]
    exact fun k _ => Row.prints_get h k
  by_cases hone : t.mode ≠ .fixed ∨ t.buckets = 1
  · exact ⟨0, if_pos hone⟩
  · exact ⟨_, (if_neg hone).trans (if_pos hall)⟩

/-- Of many buckets, a row is put into the one that its checksum leaves. -/
private theorem bucket_eq_fmod (hmode : t.mode = .fixed) (hmany : t.buckets ≠ 1) {bucket : Int}
    (h : t.bucketOf r = .ok bucket) : bucket = (t.checksum r : Int).fmod t.buckets := by
  unfold bucketOf at h
  rw [if_neg (by simp [hmode, hmany])] at h
  split at h
  · exact (Except.ok.inj h).symm
  · cases h

private theorem bucket_eq_iff (hmode : t.mode = .fixed) (hbuckets : 1 ≤ t.buckets) {bucket bucket' : Int}
    (hr : t.bucketOf r = .ok bucket) (hs : t.bucketOf s = .ok bucket') :
    bucket = bucket' ↔ t.checksum r ≡ t.checksum s [ZMOD t.buckets] := by
  by_cases hone : t.buckets = 1
  · rw [bucketOf, if_pos (.inr hone), Except.ok.injEq] at hr hs
    rw [hone, ← hr, ← hs]
    exact iff_of_true rfl Int.modEq_one
  · rw [bucket_eq_fmod hmode hone hr, bucket_eq_fmod hmode hone hs, Int.ModEq,
      ← Int.fmod_eq_emod_of_nonneg _ (by omega), ← Int.fmod_eq_emod_of_nonneg _ (by omega)]

end Table

private theorem Value.literals_eq_map (values : List Value) : literals values = values.map literal := by
  induction values with
  | nil => rfl
  | cons v rest ih => rw [literals, ih, List.map_cons]

private theorem Row.Equal.checksum_eq (h : r.Equal s) (hform : ∀ k ∈ t.bucketColumns r, (r.get k).SameForm (s.get k)) :
    t.checksum r = t.checksum s := by
  have hliterals : Value.literals ((t.bucketColumns r).map r.get) = Value.literals ((t.bucketColumns s).map s.get) := by
    rw [Value.literals_eq_map, Value.literals_eq_map, List.map_map, List.map_map, ← h.bucketColumns_eq]
    exact List.map_congr_left fun k hk => Value.literal_eq_of_relation (h.relation_get k) (hform k hk)
  rw [Table.checksum, Table.checksum, hliterals]

/-! ### Appending -/

namespace Table

/-- A row is in the group of its partition and its bucket, and in no other. -/
private theorem Grouped.mem_rows_iff {bucketOf : Row → Except Fault Int} {groups : List Group}
    (h : t.Grouped bucketOf rows groups) :
    (∃ g ∈ groups, g.key = key ∧ r ∈ g.rows) ↔ r ∈ rows ∧ t.keysOf? r = some key.1 ∧ bucketOf r = .ok key.2 := by
  constructor
  · rintro ⟨g, hg, rfl, hr⟩
    exact ⟨h.perm.subset (List.mem_flatMap.2 ⟨g, hg, hr⟩), h.placed g hg r hr⟩
  · rintro ⟨hr, hkeys, hbucket⟩
    obtain ⟨g, hg, hr⟩ := List.mem_flatMap.1 (h.perm.symm.subset hr)
    obtain ⟨hkeys', hbucket'⟩ := h.placed g hg r hr
    rw [hkeys, Option.some.injEq] at hkeys'
    exact ⟨g, hg, Prod.ext hkeys'.symm (Except.ok.inj (hbucket'.symm.trans hbucket)), hr⟩

/-- An append without a bucket that makes a snapshot. -/
structure Append (t : Table) where
  rows : List Row
  user : String
  before : Storage
  id : Nat
  after : Storage
  sound : before.Sound t
  made : t.append rows none user before = (.ok (some id), after)

namespace Append

/-- Whether a row is in a new file under a partition and a bucket. -/
def Files (a : t.Append) (key : BucketKey) (r : Row) : Prop :=
  ∃ x ∈ a.after.manifest.filesAt key, x ∉ a.before.manifest.files ∧ r ∈ a.after.rowsOf x

private theorem exists_apply (a : t.Append) : ∃ groups, t.group t.bucketOf a.rows = .ok groups ∧
    t.apply a.user "APPEND" ((storeGroups groups a.before).1.map addition) (storeGroups groups a.before).2 =
      (.ok a.id, a.after) := by
  rcases t.append_eq a.rows none a.user a.before with
    ⟨fault, -, e⟩ | ⟨-, e⟩ | ⟨groups, before, -, -, e⟩ | ⟨groups, hgroups, -, -, e⟩
  · rw [a.made] at e
    cases e
  · rw [a.made] at e
    cases e
  · rw [a.made] at e
    cases e
  · rw [a.made, Prod.mk.injEq, eq_comm, Except.map_eq_ok] at e
    obtain ⟨⟨id, hid, hsame⟩, hafter⟩ := e
    cases hsame
    exact ⟨groups, hgroups, Prod.ext hid hafter.symm⟩

/-- The new files under a key hold the rows of its group. -/
private theorem exists_groups (a : t.Append) : ∃ groups, t.Grouped t.bucketOf a.rows groups ∧
    ∀ key r, a.Files key r ↔ ∃ g ∈ groups, g.key = key ∧ r ∈ g.rows := by
  obtain ⟨groups, hgroups, happly⟩ := a.exists_apply
  refine ⟨groups, grouped_of_group hgroups, fun key r => ?_⟩
  have hw := writes_storeGroups groups a.sound.numbered
  have hrows := rowsOf_storeGroups groups a.sound.numbered
  have hwritten := fst_storeGroups groups a.before
  generalize (storeGroups groups a.before).1 = written, (storeGroups groups a.before).2 = s₁
    at hw hrows hwritten happly
  have hkeys : (s₁.manifest.map Entry.key).Nodup := hw.manifest ▸ a.sound.manifest.keys
  have hafter : s₁.withSnapshot a.user "APPEND" (s₁.manifest.committed (written.map addition)) = a.after := by
    rcases t.apply_cases a.user "APPEND" (written.map addition) s₁ with ⟨fault, -, e⟩ | ⟨-, -, e⟩
    · rw [e] at happly
      cases happly
    · rw [e] at happly
      exact congrArg Prod.snd happly
  have hrowsOf (x : DataFile) : a.after.rowsOf x = s₁.rowsOf x := hafter ▸ rfl
  rw [Files, ← hafter, Storage.manifest_withSnapshot, Manifest.filesAt_committed hkeys, hafter, hw.manifest]
  constructor
  · rintro ⟨x, hx, hnew, hr⟩
    rcases List.mem_append.1 hx with hx | hx
    · -- what is kept was there before
      obtain ⟨e, he, -, hx⟩ := (Manifest.mem_filesAt_iff a.sound.manifest.keys).1 (List.mem_filter.1 hx).1
      exact absurd (Manifest.mem_files.2 ⟨e, he, hx⟩) hnew
    · obtain ⟨f, hf, hx⟩ := List.mem_flatMap.1 hx
      obtain ⟨hf, hkey⟩ := List.mem_filter.1 hf
      obtain ⟨e, he, rfl⟩ := List.mem_map.1 hf
      obtain rfl := List.mem_singleton.1 hx
      rw [hrowsOf, hrows e he] at hr
      exact ⟨e.1, hwritten ▸ List.mem_map_of_mem he, of_decide_eq_true hkey, hr⟩
  · rintro ⟨g, hg, rfl, hr⟩
    obtain ⟨e, he, rfl⟩ := List.mem_map.1 (hwritten ▸ hg)
    refine ⟨e.2, List.mem_append_right _ ?_, ?_, ?_⟩
    · exact List.mem_flatMap.2 ⟨addition e, List.mem_filter.2 ⟨List.mem_map_of_mem he, decide_eq_true rfl⟩,
        List.mem_singleton_self e.2⟩
    · exact fun hold => hw.fresh e.2 (List.mem_map_of_mem he) (a.sound.manifest.stored e.2 hold)
    · rwa [hrowsOf, hrows e he]

/-- Each row is put under its own partition and bucket, and under no other. -/
private theorem files_iff (a : t.Append) :
    a.Files key r ↔ r ∈ a.rows ∧ t.keysOf? r = some key.1 ∧ t.bucketOf r = .ok key.2 := by
  obtain ⟨groups, hgrouped, hfiles⟩ := a.exists_groups
  rw [hfiles, hgrouped.mem_rows_iff]

private theorem exists_files (a : t.Append) (hr : r ∈ a.rows) : ∃ key, t.bucketOf r = .ok key.2 ∧ a.Files key r := by
  obtain ⟨groups, hgrouped, -⟩ := a.exists_groups
  obtain ⟨g, hg, hrg⟩ := List.mem_flatMap.1 (hgrouped.perm.symm.subset hr)
  obtain ⟨hkeys, hbucket⟩ := hgrouped.placed g hg r hrg
  exact ⟨g.key, hbucket, a.files_iff.2 ⟨hr, hkeys, hbucket⟩⟩

end Append

/-- Rows can be appended if each of them belongs to a partition and has a text. -/
private theorem exists_append {before : Storage} (hs : before.Sound t) (user : String) (hne : rows ≠ [])
    (h : ∀ r ∈ rows, ∃ keys, t.keysOf? r = some keys) (hprints : ∀ r ∈ rows, r.prints) :
    ∃ a : t.Append, a.before = before ∧ a.user = user ∧ a.rows = rows := by
  obtain ⟨groups, hgroups⟩ := exists_group h fun r hr => t.exists_bucketOf (hprints r hr)
  rcases t.append_eq rows none user before with
    ⟨fault, hfault, -⟩ | ⟨hnil, -⟩ | ⟨groups', -, hgroups', hnot, -⟩ | ⟨groups', hgroups', -, hprinted, e⟩
  · cases hfault.symm.trans hgroups
  · exact absurd ((grouped_of_group hnil).eq_nil_iff.1 rfl) hne
  · exact absurd ((grouped_of_group hgroups').printed_iff.2 hprints) hnot
  · obtain ⟨id, after, happly, -⟩ := publishes_additions hs (grouped_of_group hgroups') hprinted user "APPEND"
    rw [happly] at e
    exact ⟨⟨rows, user, before, id, after, hs, e⟩, rfl, rfl, rfl⟩

end Table

/-- Equal rows belong to one partition, or both to none. In a table with a fixed number of buckets they can be appended
if they belong to one and have a text, and whatever appends them, it puts them under the same bucket exactly if their
checksums leave the same remainder. These are equal if equal values in the bucket columns are of the same form. -/
theorem Row.Equal.append_together_iff (h : r.Equal s) (hmode : t.mode = .fixed) (hbuckets : 1 ≤ t.buckets) :
    t.keysOf? r = t.keysOf? s ∧
      (∀ before user, before.Sound t → (t.keysOf? r).isSome → r.prints → s.prints →
        ∃ a : t.Append, a.before = before ∧ a.user = user ∧ a.rows = [r, s]) ∧
      (∀ a b : t.Append, r ∈ a.rows → s ∈ b.rows →
        ((∃ key, a.Files key r ∧ b.Files key s) ↔ t.checksum r ≡ t.checksum s [ZMOD t.buckets])) ∧
      ((∀ k ∈ t.bucketColumns r, (r.get k).SameForm (s.get k)) → t.checksum r = t.checksum s) := by
  have hkeys := h.keysOf?_eq t
  refine ⟨hkeys, fun before user hbefore hsome hr hs => ?_, fun a b hr hs => ?_, h.checksum_eq⟩
  · obtain ⟨keys, hkey⟩ := Option.isSome_iff_exists.1 hsome
    refine Table.exists_append hbefore user (List.cons_ne_nil r [s]) ?_ ?_
    · simp [hkey, ← hkeys]
    · simp [hr, hs]
  · obtain ⟨key, hbucket, hfiles⟩ := a.exists_files hr
    obtain ⟨key', hbucket', hfiles'⟩ := b.exists_files hs
    rw [← Table.bucket_eq_iff hmode hbuckets hbucket hbucket']
    constructor
    · rintro ⟨key₀, hr, hs⟩
      have hsame := hbucket.symm.trans (a.files_iff.1 hr).2.2
      have hsame' := hbucket'.symm.trans (b.files_iff.1 hs).2.2
      exact (Except.ok.inj hsame).trans (Except.ok.inj hsame').symm
    · intro hequal
      have hkey : key'.1 = key.1 := by
        have hsome := (a.files_iff.1 hfiles).2.1.symm.trans (hkeys.trans (b.files_iff.1 hfiles').2.1)
        exact (Option.some.inj hsome).symm
      exact ⟨key, hfiles, Prod.ext hkey hequal.symm ▸ hfiles'⟩

/-- A whole number and the same one with a point are one key, but not written alike. -/
theorem Row.Equal.not_together_of_point :
    let t : Table := { name := "t", keys := [], mode := .fixed, buckets := 4, bucketKeys := ["id"], options := [] }
    let r : Row := [("id", .int 1)]
    let s : Row := [("id", .float ⟨0x3FF0000000000000⟩ 0)]
    r.Equal s ∧ t.mode = .fixed ∧ 1 ≤ t.buckets ∧
      ∃ a : t.Append, a.before = {} ∧ a.rows = [r, s] ∧ ¬ ∃ key, a.Files key r ∧ a.Files key s := by
  intro t r s
  have hequal : r.Equal s := ⟨.refl _, by decide +kernel⟩
  have hmode : t.mode = .fixed := rfl
  have hbuckets : 1 ≤ t.buckets := by decide
  have hchecksums : ¬ t.checksum r ≡ t.checksum s [ZMOD t.buckets] := by decide +kernel
  obtain ⟨-, hexists, htogether, -⟩ := hequal.append_together_iff hmode hbuckets
  obtain ⟨a, hbefore, -, hrows⟩ := hexists {} "append" (Storage.sound_empty t) rfl rfl rfl
  refine ⟨hequal, hmode, hbuckets, a, hbefore, hrows, ?_⟩
  rwa [htogether a a (by simp [hrows]) (by simp [hrows])]

end Compaction
