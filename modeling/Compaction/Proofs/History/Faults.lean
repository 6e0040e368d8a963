import Compaction.Proofs.History.Named
import Compaction.Proofs.Job.Faults
import Compaction.Proofs.Job.Sequence
import Compaction.Proofs.Order.Sortable
import Compaction.Proofs.Table.Schema

/-!
# Faults of a compaction

A compaction fails with a fault of this library, unless its table has no assigned buckets and a numeric option of it
cannot be read, or the rows to be sorted have values that do not compare (`Table.Breaks`, `compact_breaks_iff`).
-/

namespace Compaction

variable {t : Table} {s : Storage} {f : Fault} {rows : List Row} {strategy : Strategy} {columns : List String}
  {filter : Option Filter} {r : Request}

/-- Whether compacting a table without assigned buckets comes to an option that is no whole number while its tasks are
planned, or to rows that refuse to be sorted. -/
def Table.Breaks (t : Table) (s : Storage) (r : Request) : Prop :=
  t.mode = .unaware ∧
    (r.strategy = .none ∧ (∃ predicate, t.bindFilter r.filter = .ok predicate) ∧
        (∃ name ∈ taskOptions, ∃ g, t.numericOption name = .error g) ∨
      r.strategy ≠ .none ∧ ∃ rows, s.readRows r.filter = .ok rows ∧
        t.sortRows rows r.strategy r.columns = .error (.bare .badType))

namespace Table

/-- Sorting fails with a fault of this library, or for values that do not compare. -/
theorem sortRows_eq_error (h : t.sortRows rows strategy columns = .error f) :
    f.kind.isLibrary ∨ f = .bare .badType ∧ ¬ Order.Sortable strategy columns rows := by
  unfold sortRows at h
  split at h
  · rcases Order.sortRows_eq_error h with rfl | h
    · exact .inl rfl
    · exact .inr h
  · cases h
    exact .inl rfl

private theorem isLibrary_of_readRows (hs : s.Sound t) (h : s.readRows filter = .error f) : f.kind.isLibrary := by
  cases filter with
  | none =>
    rw [hs.readRows_none] at h
    cases h
  | some filter =>
    obtain ⟨r, hr, hfault⟩ := Storage.exists_of_readRows_eq_error hs h
    have hprints := hs.manifest.prints_of_mem_rowsIn r hr
    have hkind := Filter.kind_of_selects (fun c _ => Row.prints_get hprints c) hfault
    rw [hkind]
    rfl

private theorem reorder_of_unaware (hmode : t.mode = .unaware) (hread : s.readRows filter = .ok rows) :
    t.reorder strategy columns filter s = t.writeSorted rows strategy columns s := by
  simp only [reorder, hmode, ne_eq, not_true, if_false]
  rw [Effect.ofRead_bind, hread]

/-- Reordering fails with a fault of this library or because the rows cannot be sorted: they can always be written
back. -/
private theorem reorder_eq_error (hs : s.Sound t) (h : (t.reorder strategy columns filter s).1 = .error f) :
    f.kind.isLibrary ∨ t.mode = .unaware ∧ ∃ rows, s.readRows filter = .ok rows ∧
      t.sortRows rows strategy columns = .error f := by
  by_cases hmode : t.mode = .unaware
  · cases hread : s.readRows filter with
    | error g =>
      simp only [reorder, hmode, ne_eq, not_true, if_false] at h
      rw [Effect.ofRead_bind, hread] at h
      cases h
      exact .inl (isLibrary_of_readRows hs hread)
    | ok rows =>
      have hlive : ∀ r ∈ rows, r ∈ s.rowsIn s.manifest := by
        intro r hr
        rw [Storage.readRows_eq_filter hs hread] at hr
        exact (List.mem_filter.1 hr).1
      have hkeys : ∀ r ∈ rows, ∃ keys, t.keysOf? r = some keys := fun r hr => hs.manifest.exists_keysOf? (hlive r hr)
      have hprints : ∀ r ∈ rows, r.prints := fun r hr => hs.manifest.prints_of_mem_rowsIn r (hlive r hr)
      rw [reorder_of_unaware hmode hread] at h
      rcases writeSorted_cases hs hkeys hprints strategy columns with ⟨g, hsort, e⟩ | ⟨id, s', e, -⟩
      · rw [e] at h
        cases h
        exact .inr ⟨hmode, rows, rfl, hsort⟩
      · rw [e] at h
        cases h
  · simp only [reorder, hmode, ne_eq, not_false_iff, if_true] at h
    cases h
    exact .inl rfl

private theorem compact_eq_error (hs : s.Sound t) (hprints : ∀ e ∈ s.manifest, e.partition.prints) {executor : Executor}
    (hwhole : ∀ x, executor ≠ .threads (.real x)) {user : String} (h : (t.compact executor user r s).1 = .error f) :
    f.kind.isLibrary ∨ t.Breaks s r := by
  by_cases hr : r.strategy = .none
  · rw [compact_eq hr] at h
    cases hplan : t.plan s r with
    | error g =>
      rw [hplan] at h
      cases h
      rcases plan_eq_error hprints hplan with hlibrary | ⟨hmode, hfilter, name, hname, hoption⟩
      · exact .inl hlibrary
      · exact .inr ⟨hmode, .inl ⟨hr, hfilter, name, hname, f, hoption⟩⟩
    | ok units =>
      rw [hplan] at h
      dsimp only at h
      split at h
      · cases h
      · exact .inl ((ensures_runUnits _ hwhole user units _ s).2 f h)
  · rw [compact] at h
    dsimp only at h
    rw [if_neg hr, Effect.bind_apply] at h
    have hs' : s.Sound t.forCompaction := hs.handle _
    rcases e : t.forCompaction.reorder r.strategy r.columns r.filter s with ⟨g | id, s'⟩
    · rw [e] at h
      cases h
      rcases reorder_eq_error hs' (by rw [e]) with hlibrary | ⟨hmode, rows, hread, hsort⟩
      · exact .inl hlibrary
      · rcases sortRows_eq_error hsort with hlibrary | ⟨rfl, -⟩
        · exact .inl hlibrary
        · exact .inr ⟨hmode, .inr ⟨hr, rows, hread, hsort⟩⟩
    · rw [e] at h
      cases h

private theorem exists_compact_eq_error (h : t.Breaks s r) (executor : Executor) (user : String) :
    ∃ f s', t.compact executor user r s = (.error f, s') ∧ ¬ f.kind.isLibrary := by
  obtain ⟨hmode, ⟨hr, ⟨predicate, hfilter⟩, name, hname, f, hoption⟩ | ⟨hr, rows, hread, hsort⟩⟩ := h
  · obtain ⟨g, hplan, name', -, hoption'⟩ := exists_plan_eq_error (s := s) hmode hr hfilter hname hoption
    rw [compact_eq hr, hplan]
    refine ⟨g, s, rfl, ?_⟩
    rw [kind_of_numericOption hoption']
    decide
  · have hreorder : t.forCompaction.reorder r.strategy r.columns r.filter s = (.error (.bare .badType), s) := by
      have hmode' : t.forCompaction.mode = .unaware := hmode
      have hsort' : t.forCompaction.sortRows rows r.strategy r.columns = .error (.bare .badType) := hsort
      rw [reorder_of_unaware hmode' hread, writeSorted, Effect.ofExcept_bind, hsort']
    rw [compact]
    dsimp only
    rw [if_neg hr, Effect.bind_of_error hreorder]
    exact ⟨_, s, rfl, by decide⟩

end Table

namespace World

variable {w : World} {executor : Executor} {user : String}

/-- Whatever was done with a table and whatever is asked of it: a compaction fails with a fault that is not of this
library exactly if it breaks, and it does not if all numeric options can be read and all rows can be sorted. -/
theorem compact_breaks_iff (hw : w.Reached t) (hwhole : ∀ x, executor ≠ .threads (.real x))
    (options : List (String × String)) (user : String) (r : Request) :
    ((∃ f s', (t.handle options).compact executor user r w.storage = (.error f, s') ∧ ¬ f.kind.isLibrary) ↔
      (t.handle options).Breaks w.storage r) ∧
    ((∀ name ∈ Table.taskOptions, ∃ n, (t.handle options).numericOption name = .ok n) →
      (∀ rows, w.storage.readRows r.filter = .ok rows → Order.Sortable r.strategy r.columns rows) →
        ¬ (t.handle options).Breaks w.storage r) := by
  have hs := hw.sound.storage.handle options
  refine ⟨⟨?_, fun h => Table.exists_compact_eq_error h executor user⟩, fun hoptions hsortable => ?_⟩
  · rintro ⟨f, s', e, hf⟩
    exact (Table.compact_eq_error hs hw.prints_partition hwhole (by rw [e])).resolve_left hf
  · rintro ⟨-, ⟨-, -, name, hname, f, hoption⟩ | ⟨-, rows, hread, hsort⟩⟩
    · obtain ⟨n, hn⟩ := hoptions name hname
      rw [hn] at hoption
      cases hoption
    · rcases Table.sortRows_eq_error hsort with hlibrary | ⟨-, hnot⟩
      · cases hlibrary
      · exact hnot (hsortable rows hread)

/-- A size that is no number is found out when tasks are planned, and a text among numbers when rows are sorted. -/
theorem compact_breaks_twice :
    let t : Table := ⟨"t", ["dt"], .unaware, 1, [], Table.defaultOptions⟩
    let mixed : List Row := [[("dt", .int 1), ("v", .int 1)], [("dt", .int 1), ("v", .text "a")]]
    let w := run t [.append [] mixed none "u"]
    (∃ f s', (t.handle [("target-file-size", "abc")]).compact (.threads (.whole 4)) "c" {} w.storage = (.error f, s') ∧
      ¬ f.kind.isLibrary) ∧
    ∃ f s', (t.handle Table.defaultOptions).compact (.threads (.whole 4)) "c"
      { strategy := .order, columns := ["v"] } w.storage = (.error f, s') ∧ ¬ f.kind.isLibrary := by
  intro t mixed w
  have hreached : w.Reached t := reached_run t _
  have hwhole : ∀ x, Executor.threads (.whole 4) ≠ .threads (.real x) := by simp
  constructor
  · refine (compact_breaks_iff hreached hwhole [("target-file-size", "abc")] "c" {}).1.2 ?_
    have hbad : ((t.handle [("target-file-size", "abc")]).numericOption "target-file-size").isOk = false := by
      decide +kernel
    cases hoption : (t.handle [("target-file-size", "abc")]).numericOption "target-file-size" with
    | error g => exact ⟨rfl, .inl ⟨rfl, ⟨none, rfl⟩, _, by simp [Table.taskOptions], g, hoption⟩⟩
    | ok n =>
      rw [hoption] at hbad
      cases hbad
  · refine (compact_breaks_iff hreached hwhole Table.defaultOptions "c" { strategy := .order, columns := ["v"] }).1.2 ?_
    have hbad : ((t.sortRows w.rows .order ["v"]).mapError Fault.kind).map List.length = .error .badType := by
      decide +kernel
    cases hsort : t.sortRows w.rows .order ["v"] with
    | error f =>
      rw [hsort] at hbad
      have hkind : f.kind = .badType := Except.error.inj hbad
      rcases Table.sortRows_eq_error hsort with hlibrary | ⟨rfl, -⟩
      · rw [hkind] at hlibrary
        cases hlibrary
      · exact ⟨rfl, .inr ⟨by simp, w.rows, hreached.sound.storage.readRows_none, hsort⟩⟩
    | ok inOrder =>
      rw [hsort] at hbad
      cases hbad

end World

end Compaction
