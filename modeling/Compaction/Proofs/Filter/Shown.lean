import Compaction.Job.Report
import Compaction.Proofs.Calendar.Reading
import Compaction.Proofs.Filter.Reading
import Compaction.Proofs.Filter.Rearranging
import Compaction.Proofs.Number.Numerals
import Compaction.Proofs.Table.Schema

/-!
# Partitions as filters

A partition is shown as pairs of a column and a value between slashes, which is the text of a filter of one group.
Truth values, dates, whole numbers that are not too long and texts that a filter can hold are told from all others of
their type by what they are shown as (`sameValue_plain`). So the text of a partition of such values, read as a filter,
selects this partition and no other one of the same types (`test_path`).
-/

namespace Compaction

open Text

/-- Whether a value is given back by the text that it is shown as. -/
def Value.IsShown : Value → Prop
  | bool _ | date _ => True
  | int n => (digits n.natAbs).length ≤ Number.maxDigits
  | text s => Filter.IsValue s
  | _ => False

namespace Filter

variable {v w : Value} {keys : List String} {p q : Partition}

/-! ### Values -/

private theorem isValue_of_isNumeric {s : List Char} (h : ∀ c ∈ s, IsNumeric c) : IsValue (String.ofList s) := by
  have hplain : ∀ c, IsNumeric c → isBlank c = false ∧ isPairEnd c = false ∧ isGroupEnd c = false := by
    rintro c (hc | rfl | rfl | rfl | rfl)
    · simp [isBlank_of_isDigit hc, isPairEnd, isGroupEnd, ne_of_isDigit hc]
    all_goals decide
  rw [IsValue, String.toList_ofList]
  exact ⟨trim_eq_self fun c hc => (hplain c (h c hc)).1, fun c hc => (hplain c (h c hc)).2⟩

private theorem isValue_plain (h : v.IsShown) : IsValue (String.ofList v.plain) := by
  cases v with
  | bool b => cases b <;> decide
  | int n => exact isValue_of_isNumeric (isNumeric_signed n)
  | date d =>
    refine isValue_of_isNumeric fun c hc => ?_
    rcases Date.isDigit_or_eq_of_mem_text hc with hc | rfl
    · exact .inl hc
    · exact .inr (.inr (.inr (.inr rfl)))
  | text s =>
    rw [Value.plain, String.ofList_toList]
    exact h
  | _ => exact h.elim

/-- Among the values of its type, a shown value is the one that its text stands for. -/
theorem sameValue_plain (hv : v.IsShown) (htype : w.typeName = v.typeName) (column : String) :
    ∃ b, sameValue column w (String.ofList v.plain) = .ok b ∧ (b = true ↔ w = v) := by
  cases v <;> cases w
  case bool.bool b b' =>
    refine ⟨b' == b, ?_, by simp⟩
    cases b <;> cases b' <;> rfl
  case int.int n n' =>
    refine ⟨n = n', ?_, by simp [eq_comm]⟩
    simp [sameValue, readAs, Value.plain, Value.literal, Number.readInt?_signed hv]
  case date.date d d' =>
    refine ⟨d = d', ?_, by simp [eq_comm]⟩
    simp [sameValue, readAs, Value.plain, Date.read?_text]
  case text.text s s' =>
    refine ⟨s' = s, ?_, by simp⟩
    simp only [sameValue, Value.plain, String.ofList_toList, String.toList_inj]
    rfl
  case text.broken s b => exact ⟨false, rfl, by simp⟩
  all_goals
    simp only [Value.typeName] at htype
    first
      | exact hv.elim
      | exact absurd htype (by decide)
      | exact absurd htype (Foreign.typeName_ne (by decide) _)

/-! ### Partitions -/

/-- The columns of a partition with the texts of its values. -/
def shownPairs (keys : List String) (p : Partition) : List (String × String) :=
  (keys.zip p).map fun e => (e.1, String.ofList e.2.plain)

def ofPartition (keys : List String) (p : Partition) : Filter := ⟨[shownPairs keys p]⟩

private theorem mem_shownPairs (hlength : p.length = keys.length) {pair : String × String} : pair ∈ shownPairs keys p ↔
    ∃ (i : Nat) (hi : i < keys.length), (keys[i], String.ofList p[i].plain) = pair := by
  rw [shownPairs, List.mem_iff_getElem]
  constructor
  · rintro ⟨i, hi, rfl⟩
    rw [List.length_map, List.length_zip] at hi
    exact ⟨i, by omega, by simp⟩
  · rintro ⟨i, hi, rfl⟩
    exact ⟨i, by simp [hlength, hi], by simp⟩

private theorem path_eq_joinWith (hne : keys ≠ []) (p : Partition) : p.path keys =
    joinWith [';'] ((ofPartition keys p).groups.map fun g => joinWith ['/'] (g.map pairText)) := by
  have hkeys : keys.isEmpty = false := by simpa using hne
  simp [Partition.path, ofPartition, shownPairs, pairText, joinWith, hkeys, Function.comp_def]

private theorem wellFormed_ofPartition (hne : keys ≠ []) (hcolumns : ∀ k ∈ keys, IsColumn k)
    (hlength : p.length = keys.length) (hp : ∀ v ∈ p, v.IsShown) : (ofPartition keys p).WellFormed := by
  refine ⟨List.cons_ne_nil _ _, List.forall_mem_singleton.2 ⟨?_, List.forall_mem_map.2 fun e he => ?_⟩⟩
  · have hkeys : 0 < keys.length := List.length_pos_of_ne_nil hne
    refine List.ne_nil_of_length_pos ?_
    rw [shownPairs, List.length_map, List.length_zip]
    omega
  · have hmem := List.of_mem_zip he
    exact ⟨hcolumns e.1 hmem.1, isValue_plain (hp e.2 hmem.2)⟩

private theorem mem_columns_ofPartition {c : String} (hc : c ∈ (ofPartition keys p).columns) : c ∈ keys := by
  obtain ⟨g, hg, pair, hpair, rfl⟩ := mem_columns.1 hc
  rw [List.mem_singleton.1 hg] at hpair
  obtain ⟨e, he, rfl⟩ := List.mem_map.1 hpair
  exact (List.of_mem_zip he).1

/-- A partition holds its values in the columns of their places. -/
private theorem get_row (hkeys : keys.Nodup) (hlength : q.length = keys.length) (f : Filter) {i : Nat}
    (hi : i < keys.length) : (Predicate.row ⟨keys, f⟩ q).get keys[i] = q[i] := by
  have hcolumns : Row.columns (keys.zip q) = keys := List.map_fst_zip hlength.ge
  have hentry : (keys[i], q[i]) ∈ keys.zip q := List.mem_iff_getElem.2 ⟨i, by simp [hlength, hi], by simp⟩
  have hget : (Row.ofList (keys.zip q)).get? keys[i] = Row.get? (keys.zip q) keys[i] := by
    refine Row.get?_ofList (fun e he => Row.get?_of_mem (hcolumns.symm ▸ hkeys) he) ?_
    exact List.mem_map_of_mem hentry
  rw [Predicate.row, Row.get, hget, Row.get?_of_mem (hcolumns.symm ▸ hkeys) hentry, Option.getD_some]

private theorem pairMatches_row (hkeys : keys.Nodup) (hp : p.length = keys.length) (hq : q.length = keys.length)
    (f : Filter) {i : Nat} (hi : i < keys.length) (hshown : p[i].IsShown) (htype : q[i].typeName = p[i].typeName) :
    ∃ b, pairMatches (Predicate.row ⟨keys, f⟩ q).get (keys[i], String.ofList p[i].plain) = .ok b ∧
      (b = true ↔ q[i] = p[i]) := by
  rw [pairMatches, get_row hkeys hq f hi]
  exact sameValue_plain hshown htype keys[i]

/-- A filter of one group comes to what the group comes to. -/
private theorem selects_singleton (group : List (String × String)) (value : String → Value) :
    selects ⟨[group]⟩ value = matchesGroup value group := by
  rw [selects, matchesSome]
  rcases matchesGroup value group with fault | b
  · rfl
  · cases b <;> rfl

/-- Among the partitions of its types, a partition of shown values is the one that its filter selects. -/
private theorem test_ofPartition (hkeys : keys.Nodup) (hlength : p.length = keys.length) (hp : ∀ v ∈ p, v.IsShown)
    (htypes : q.map Value.typeName = p.map Value.typeName) :
    ∃ b, Predicate.test ⟨keys, ofPartition keys p⟩ q = .ok b ∧ (b = true ↔ q = p) := by
  have hq : q.length = keys.length := hlength ▸ by simpa using congrArg List.length htypes
  have hpair {i : Nat} (hi : i < keys.length) :=
    have htype : q[i].typeName = p[i].typeName := by
      have hplace := List.getElem_of_eq htypes (by rw [List.length_map]; omega : i < (q.map Value.typeName).length)
      rwa [List.getElem_map, List.getElem_map] at hplace
    pairMatches_row hkeys hlength hq (ofPartition keys p) hi (hp p[i] (List.getElem_mem _)) htype
  have htest : Predicate.test ⟨keys, ofPartition keys p⟩ q =
      matchesGroup (Predicate.row ⟨keys, ofPartition keys p⟩ q).get (shownPairs keys p) := selects_singleton _ _
  rw [htest]
  rcases matchesGroup_cases (Predicate.row ⟨keys, ofPartition keys p⟩ q).get (shownPairs keys p) with
    ⟨htrue, hall⟩ | ⟨hother, pair, hmem, hresult⟩
  · refine ⟨true, htrue, iff_of_true rfl (List.ext_getElem (hq.trans hlength.symm) fun i hi _ => ?_)⟩
    obtain ⟨b, hb, hsame⟩ := hpair (hq ▸ hi)
    rw [hall _ ((mem_shownPairs hlength).2 ⟨i, hq ▸ hi, rfl⟩), Except.ok.injEq] at hb
    exact hsame.1 hb.symm
  · obtain ⟨i, hi, rfl⟩ := (mem_shownPairs hlength).1 hmem
    obtain ⟨b, hb, hsame⟩ := hpair hi
    rw [hresult, hb] at hother
    refine ⟨b, hresult.trans hb, iff_of_false (fun htrue => hother (htrue ▸ rfl)) ?_⟩
    rintro rfl
    exact hother (hsame.2 rfl ▸ rfl)

/-- The text of a partition is read as a filter that, bound to the partition columns, selects this partition and no
other one of the same types. -/
theorem test_path (hne : keys ≠ []) (hkeys : keys.Nodup) (hcolumns : ∀ k ∈ keys, IsColumn k)
    (hlength : p.length = keys.length) (hp : ∀ v ∈ p, v.IsShown) :
    ∃ f predicate, read (String.ofList (p.path keys)) = .ok (some f) ∧ f.bind keys = .ok predicate ∧
      predicate.test p = .ok true ∧
      ∀ q : Partition, q.map Value.typeName = p.map Value.typeName → q ≠ p → predicate.test q = .ok false := by
  have hread := read_joinWith (wellFormed_ofPartition hne hcolumns hlength hp) (show isPairEnd '/' from rfl)
  rw [← path_eq_joinWith hne p] at hread
  refine ⟨_, _, hread, bind_eq_ok fun c => mem_columns_ofPartition, ?_, fun q htypes hother => ?_⟩
  · obtain ⟨b, hb, hsame⟩ := test_ofPartition hkeys hlength hp (rfl : p.map Value.typeName = _)
    rw [hb, hsame.2 rfl]
  · obtain ⟨b, hb, hsame⟩ := test_ofPartition hkeys hlength hp htypes
    rw [hb, Bool.eq_false_iff.2 fun h => hother (hsame.1 h)]

/-- A sign, a truth value and a `=` in a text are read as parts of the values. -/
theorem test_path_of_four_types :
    let keys := ["dt", "hh", "on", "name"]
    let p : Partition := [.date ⟨2024, 2, 29, by decide⟩, .int (-7), .bool true, .text "a = b"]
    let q : Partition := [.date ⟨2024, 2, 29, by decide⟩, .int (-7), .bool false, .text "a = b"]
    keys.Nodup ∧ (∀ k ∈ keys, IsColumn k) ∧ (∀ v ∈ p, v.IsShown) ∧
      String.ofList (p.path keys) = "dt=2024-02-29/hh=-7/on=True/name=a = b" ∧
      ∃ f predicate, read (String.ofList (p.path keys)) = .ok (some f) ∧ f.bind keys = .ok predicate ∧
        predicate.test p = .ok true ∧ predicate.test q = .ok false := by
  intro keys p q
  have hkeys : keys.Nodup := by decide
  have hcolumns : ∀ k ∈ keys, IsColumn k := by decide
  have hp : ∀ v ∈ p, v.IsShown := by
    simp only [p, List.forall_mem_cons, Value.IsShown, List.not_mem_nil, false_implies, implies_true]
    decide
  have hother : q ≠ p := by simp [p, q]
  obtain ⟨f, predicate, hread, hbind, htrue, hfalse⟩ := test_path (List.cons_ne_nil _ _) hkeys hcolumns rfl hp
  exact ⟨hkeys, hcolumns, hp, by rfl, f, predicate, hread, hbind, htrue, hfalse q rfl hother⟩

end Filter

end Compaction
