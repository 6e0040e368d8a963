import Compaction.Proofs.Filter.Match
import Compaction.Proofs.Table.Houses
import Compaction.Proofs.Table.Options
import Compaction.Proofs.Table.Selection
import Mathlib.Data.List.Induction

/-!
# Tables with a schema

Where each partition column holds values of one type, or nulls, and equal values of an unknown type are shown alike,
equal partitions hold alike values (`alike_of_keysOf?`). A filter on partition columns then does the same with all rows
of a bucket and with the partition that the bucket is named by (`selectsRow_congr`, `test_of_partitionOf`), so selecting
buckets is selecting rows, and these are whole partitions (`readRows_eq_scan`, `readRows_eq_partitions`).
-/

namespace Compaction

/-- The value as one of an unknown type, if it is. -/
def Value.foreign? : Value → Option Foreign
  | foreign x => some x
  | _ => none

/-- Whether every partition column of a row holds a null or a value of the type that the column has. -/
def Table.Conforms (t : Table) (types : String → String) (r : Row) : Prop :=
  ∀ k ∈ t.keys, (r.get k).isNull ∨ (r.get k).typeName = types k

instance (t : Table) (types : String → String) : DecidablePred (t.Conforms types) := fun r =>
  inferInstanceAs (Decidable (∀ k ∈ t.keys, (r.get k).isNull ∨ (r.get k).typeName = types k))

/-- Whether equal values of an unknown type have the same text, wherever rows hold them in a partition column. -/
def Table.ShowsAlike (t : Table) (rows : List Row) : Prop :=
  ∀ r ∈ rows, ∀ r' ∈ rows, ∀ k ∈ t.keys, ∀ x ∈ (r.get k).foreign?, ∀ y ∈ (r'.get k).foreign?,
    x.typeName = y.typeName → x.rank = y.rank → x.plain = y.plain

instance (t : Table) : DecidablePred t.ShowsAlike := fun rows =>
  inferInstanceAs (Decidable (∀ r ∈ rows, ∀ r' ∈ rows, ∀ k ∈ t.keys, ∀ x ∈ (r.get k).foreign?,
    ∀ y ∈ (r'.get k).foreign?, x.typeName = y.typeName → x.rank = y.rank → x.plain = y.plain))

variable {t : Table} {types : String → String} {r r' : Row} {p : Partition} {keys : List (Option Key)} {f : Filter}
variable {s : Storage} {rows : List Row}

/-! ### Partitions of rows -/

namespace Table

/-- Rows of one partition that conform to a schema hold alike values in the partition columns. -/
theorem alike_of_keysOf? (hr : t.Conforms types r) (hr' : t.Conforms types r') (hshown : t.ShowsAlike rows)
    (hmem : r ∈ rows) (hmem' : r' ∈ rows) (h : t.keysOf? r = some keys) (h' : t.keysOf? r' = some keys) :
    ∀ k ∈ t.keys, (r.get k).Alike (r'.get k) := by
  intro k hk
  obtain ⟨p, hp, hkey, rfl⟩ := keysOf?_eq_some.1 h
  obtain ⟨p', hp', -, hsame⟩ := keysOf?_eq_some.1 h'
  obtain ⟨-, rfl⟩ := partitionOf_eq_ok.1 hp
  obtain ⟨-, rfl⟩ := partitionOf_eq_ok.1 hp'
  rw [Partition.keys, Partition.keys, List.map_map, List.map_map, List.map_inj_left] at hsame
  have hequal : (r.get k).key? = (r'.get k).key? := (hsame k hk).symm
  refine ⟨List.all_eq_true.1 hkey _ (List.mem_map_of_mem hk), hequal, ?_, fun x y hx hy => ?_⟩
  · have hnull : (r.get k).isNull ↔ (r'.get k).isNull := by
      rw [Value.isNull_iff, Value.isNull_iff, hequal]
    rcases hr k hk with hn | htype
    · rw [Value.eq_null_of_isNull hn, Value.eq_null_of_isNull (hnull.1 hn)]
    · rcases hr' k hk with hn | htype'
      · rw [Value.eq_null_of_isNull hn, Value.eq_null_of_isNull (hnull.2 hn)]
      · rw [htype, htype']
  · rw [hx, hy, Value.key?, Value.key?, Option.some.injEq, Key.foreign.injEq] at hequal
    refine hshown r hmem r' hmem' k hk x ?_ y ?_ hequal.1 hequal.2
    · rw [hx]
      rfl
    · rw [hy]
      rfl

end Table

/-! ### Partitions as rows -/

theorem Row.get?_of_mem (h : r.columns.Nodup) {e : String × Value} (he : e ∈ r) : r.get? e.1 = some e.2 := by
  obtain ⟨before, after, rfl⟩ := List.append_of_mem he
  refine List.lookup_eq_some_iff.2 ⟨before, after, rfl, fun other hother => ?_⟩
  rw [columns, List.map_append, List.map_cons, List.nodup_append] at h
  have hne : other.1 ≠ e.1 := h.2.2 _ (List.mem_map_of_mem hother) _ List.mem_cons_self
  simpa using hne.symm

/-- A row that is made of columns of another one holds what that one holds in these columns. -/
theorem Row.get?_ofList {entries : List (String × Value)} (h : ∀ e ∈ entries, r.get? e.1 = some e.2) {k : String}
    (hk : k ∈ entries.map Prod.fst) : (Row.ofList entries).get? k = r.get? k := by
  induction entries using List.reverseRecOn with
  | nil => cases hk
  | append_singleton entries e ih =>
    rw [List.forall_mem_append, List.forall_mem_singleton] at h
    have hlast : Row.ofList (entries ++ [e]) = insertEntry id e.1 e.2 (Row.ofList entries) := by
      simp [Row.ofList, List.foldl_append]
    rw [hlast]
    by_cases hsame : k = e.1
    · rw [hsame, h.2]
      exact lookup_insertEntry_self e.1 e.2 _
    · have hkept := lookup_insertEntry_of_ne hsame e.2 (Row.ofList entries)
      refine hkept.trans (ih h.1 ?_)
      simpa [hsame] using hk

namespace Filter

/-- A bound filter does with a partition what it does with its rows. -/
theorem test_of_partitionOf (hf : ∀ c ∈ f.columns, c ∈ t.keys) (hp : t.partitionOf r = .ok p) :
    Predicate.test ⟨t.keys, f⟩ p = f.selectsRow r := by
  obtain ⟨hcolumns, rfl⟩ := Table.partitionOf_eq_ok.1 hp
  refine selects_congr fun c hc text => congrArg (sameValue c · text) ?_
  have hzip : t.keys.zip (t.keys.map r.get) = t.keys.map fun k => (k, r.get k) :=
    List.map_prod_left_eq_zip.symm
  have hget : (Row.ofList (t.keys.map fun k => (k, r.get k))).get? c = r.get? c := by
    refine Row.get?_ofList (List.forall_mem_map.2 hcolumns) ?_
    rw [List.map_map]
    exact List.mem_map.2 ⟨c, hf c hc, rfl⟩
  rw [Predicate.row, hzip, Row.get, hget, Row.get]

/-- A filter on partition columns does the same with rows that hold alike values there. -/
theorem selectsRow_congr (hf : ∀ c ∈ f.columns, c ∈ t.keys) (h : ∀ k ∈ t.keys, (r.get k).Alike (r'.get k)) :
    f.selectsRow r = f.selectsRow r' :=
  selects_congr fun c hc text => sameValue_of_alike (h c (hf c hc)) c text

end Filter

/-! ### Buckets and rows -/

namespace Storage

variable {m selected : Manifest} {predicate : Predicate} {P : BucketKey → Row → Prop} {fault : Fault}

/-- Rows that a filter does the same with are selected together. -/
private theorem selectRows_append {test : Except Fault Bool} (hne : rows ≠ []) (h : ∀ r ∈ rows, f.selectsRow r = test)
    (others : List Row) : selectRows f (rows ++ others) = do
      let isSelected ← test
      let selected ← selectRows f others
      return if isSelected then rows ++ selected else selected := by
  induction rows with
  | nil => exact absurd rfl hne
  | cons r rest ih =>
    rw [List.forall_mem_cons] at h
    rw [List.cons_append, selectRows, h.1]
    cases rest with
    | nil => rfl
    | cons r' rest =>
      rw [ih (List.cons_ne_nil _ _) h.2]
      -- the test comes out the same a second time
      cases test with
      | error fault => rfl
      | ok isSelected =>
        cases selectRows f others with
        | error fault => rfl
        | ok selected => cases isSelected <;> rfl

/-- Selecting buckets is selecting rows if a filter does with all rows of a bucket what it does with its partition. -/
private theorem selectRows_rowsIn (hne : ∀ e ∈ m, e.rows s ≠ [])
    (h : ∀ e ∈ m, ∀ r ∈ e.rows s, f.selectsRow r = predicate.test e.partition) :
    selectRows f (s.rowsIn m) = (selectEntries predicate m).map s.rowsIn := by
  induction m with
  | nil => rfl
  | cons e rest ih =>
    rw [List.forall_mem_cons] at hne h
    have hsplit : ∀ m, s.rowsIn (e :: m) = e.rows s ++ s.rowsIn m := fun m => by
      simp [rowsIn, Manifest.files, Entry.rows]
    rw [hsplit, selectRows_append hne.1 h.1, ih hne.2 h.2, selectEntries]
    cases predicate.test e.partition with
    | error fault => rfl
    | ok isSelected =>
      cases selectEntries predicate rest with
      | error fault => rfl
      | ok selected =>
        cases isSelected with
        | false => rfl
        | true => exact congrArg Except.ok (hsplit selected).symm

private theorem exists_of_selectRows_eq_error (h : selectRows f rows = .error fault) :
    ∃ r ∈ rows, f.selectsRow r = .error fault := by
  induction rows with
  | nil => cases h
  | cons r rest ih =>
    rcases Except.bind_eq_error.1 h with h | ⟨isSelected, -, h⟩
    · exact ⟨r, by simp, h⟩
    · obtain ⟨r', hr', h⟩ := ih (Except.bind_pure_eq_error.1 h)
      exact ⟨r', List.mem_cons_of_mem _ hr', h⟩

/-- If reading under a filter fails, the filter cannot be evaluated on a live row. -/
theorem exists_of_readRows_eq_error (hs : s.Sound t) (h : s.readRows (some f) = .error fault) :
    ∃ r ∈ s.rowsIn s.manifest, f.selectsRow r = .error fault := by
  rw [readRows, files_none, read_eq_ok.2 ⟨hs.manifest.stored, rfl⟩] at h
  exact exists_of_selectRows_eq_error h

/-- Whether the live rows conform to a schema and show equal values alike. -/
structure Conforms (t : Table) (types : String → String) (s : Storage) : Prop where
  rows : ∀ r ∈ s.rowsIn s.manifest, t.Conforms types r
  shown : t.ShowsAlike (s.rowsIn s.manifest)

namespace Conforms

/-- Live rows of one partition hold alike values. -/
theorem alike (h : s.Conforms t types) (hr : r ∈ s.rowsIn s.manifest) (hr' : r' ∈ s.rowsIn s.manifest)
    (hkeys : t.keysOf? r = some keys) (hkeys' : t.keysOf? r' = some keys) :
    ∀ k ∈ t.keys, (r.get k).Alike (r'.get k) :=
  Table.alike_of_keysOf? (h.rows r hr) (h.rows r' hr') h.shown hr hr' hkeys hkeys'

/-- A filter on partition columns reads just the rows of the buckets that it selects. -/
theorem readRows_eq_scan (h : s.Conforms t types) (hs : s.Sound t) (hh : s.Houses t P)
    (hf : ∀ c ∈ f.columns, c ∈ t.keys) :
    s.readRows (some f) = (s.scan (some ⟨t.keys, f⟩)).map s.rowsIn := by
  rw [readRows, files_none, read_eq_ok.2 ⟨hs.manifest.stored, rfl⟩, scan]
  refine selectRows_rowsIn (fun e he => ?_) fun e he r hr => ?_
  · obtain ⟨r, hr, -⟩ := (hh e he).named
    exact List.ne_nil_of_mem hr
  · obtain ⟨r₀, hr₀, hnamed⟩ := (hh e he).named
    have hlive : ∀ r ∈ e.rows s, r ∈ s.rowsIn s.manifest ∧ t.keysOf? r = some e.partition.keys := by
      intro r hr
      obtain ⟨x, hx, hr⟩ := List.mem_flatMap.1 hr
      exact ⟨List.mem_flatMap.2 ⟨x, Manifest.mem_files.2 ⟨e, he, hx⟩, hr⟩, hs.manifest.placed e he x hx r hr⟩
    rw [Filter.test_of_partitionOf hf hnamed]
    have halike := h.alike (hlive r hr).1 (hlive r₀ hr₀).1 (hlive r hr).2 (hlive r₀ hr₀).2
    exact Filter.selectsRow_congr hf halike

/-- It reads whole partitions. -/
theorem readRows_eq_partitions (h : s.Conforms t types) (hs : s.Sound t) (hf : ∀ c ∈ f.columns, c ∈ t.keys)
    (hread : s.readRows (some f) = .ok rows) : rows = (s.rowsIn s.manifest).filter (t.SharesPartition rows) := by
  have hselected := readRows_eq_filter hs hread
  rw [hselected]
  refine List.filter_congr fun r hr => ?_
  rw [← hselected, Bool.eq_iff_iff, decide_eq_true_iff]
  constructor
  · intro hselects
    refine Table.sharesPartition_of_mem ?_
    rw [hselected]
    exact List.mem_filter.2 ⟨hr, hselects⟩
  · intro hshares
    obtain ⟨r', hr', hsame⟩ := List.mem_map.1 hshares
    rw [hselected] at hr'
    obtain ⟨hr', hselects⟩ := List.mem_filter.1 hr'
    obtain ⟨keys, hkeys⟩ := hs.manifest.exists_keysOf? hr
    have hsame := Filter.selectsRow_congr hf (h.alike hr hr' hkeys (hsame.trans hkeys))
    rwa [isRead, hsame]

end Conforms

end Storage

end Compaction
