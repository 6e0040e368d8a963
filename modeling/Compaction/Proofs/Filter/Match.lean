import Compaction.Filter.Match
import Compaction.Proofs.Calendar.Ordinal
import Compaction.Proofs.Effect
import Compaction.Proofs.Number.Nearest
import Compaction.Proofs.Value.Text

/-!
# Filters on equal values

A filter does not tell equal values of one type apart if those of an unknown type have the same text
(`sameValue_of_alike`), so what it does with a row, a fault included, depends on the columns that it names up to that
(`selects_congr`). All of its faults are about a text that does not fit the type of a value, as long as what it looks at
has a text (`kind_of_selects`).
-/

namespace Compaction

/-- Whether two values are the same key, of the same type and, if it is an unknown one, of the same text. -/
structure Value.Alike (v w : Value) : Prop where
  isKey : v.key?.isSome
  key : v.key? = w.key?
  type : v.typeName = w.typeName
  shown : ∀ x y, v = .foreign x → w = .foreign y → x.plain = y.plain

theorem Value.eq_null_of_isNull {v : Value} (h : v.isNull) : v = .null := by
  cases v with
  | null => rfl
  | _ => cases h

theorem Value.isNull_iff {v : Value} : v.isNull ↔ v.key? = some .null := by
  cases v with
  | float x mark =>
    rw [key?, Option.some.injEq]
    split <;> simp [isNull]
  | timestamp time =>
    rw [key?, Option.some.injEq, Timestamp.key]
    split <;> simp [isNull]
  | _ => simp [isNull, key?]

private theorem Extended.ofInt_inj {m n : Int} : ofInt m = ofInt n ↔ m = n := by
  have hone : (Float64.one : Int) ≠ 0 := Int.natCast_ne_zero.2 (Nat.ne_of_gt Float64.one_pos)
  rw [ofInt, ofInt, Extended.finite.injEq, Int.mul_eq_mul_right_iff hone]

theorem Foreign.typeName_ne {name : String} (h : name ∈ knownTypes) (x : Foreign) : x.typeName ≠ name := by
  rintro rfl
  exact x.isUnknown h

/-- Alike values are the same, apart from two numbers with a point, two timestamps and two values of an unknown type. -/
theorem Value.Alike.eq_or {v w : Value} (h : v.Alike w) : v = w ∨
    (∃ x mark y mark', v = .float x mark ∧ w = .float y mark') ∨ (∃ t u, v = .timestamp t ∧ w = .timestamp u) ∨
      ∃ x y, v = .foreign x ∧ w = .foreign y ∧ x.plain = y.plain := by
  have hkey := h.key
  cases v <;> cases w
  case null.null => exact .inl rfl
  case bool.bool b b' =>
    rw [key?, key?, Option.some.injEq, Key.number.injEq, Extended.ofInt_inj] at hkey
    left
    cases b <;> cases b' <;> simp at hkey ⊢
  case int.int m n =>
    rw [key?, key?, Option.some.injEq, Key.number.injEq, Extended.ofInt_inj] at hkey
    exact .inl (congrArg int hkey)
  case float.float x mark y mark' => exact .inr (.inl ⟨x, mark, y, mark', rfl, rfl⟩)
  case text.text s s' =>
    rw [key?, key?, Option.some.injEq, Key.text.injEq] at hkey
    exact .inl (congrArg text (String.toList_inj.1 (Text.points_injective hkey)))
  case text.broken s b =>
    rw [key?, key?, Option.some.injEq, Key.text.injEq] at hkey
    exact absurd hkey.symm (b.points_ne s.toList)
  case broken.text b s =>
    rw [key?, key?, Option.some.injEq, Key.text.injEq] at hkey
    exact absurd hkey (b.points_ne s.toList)
  case broken.broken b b' =>
    rw [key?, key?, Option.some.injEq, Key.text.injEq] at hkey
    exact .inl (congrArg broken (BrokenText.ext hkey))
  case date.date d d' =>
    rw [key?, key?, Option.some.injEq, Key.date.injEq, Date.ordinal_inj] at hkey
    exact .inl (congrArg date hkey)
  case timestamp.timestamp t u => exact .inr (.inr (.inl ⟨t, u, rfl, rfl⟩))
  case bytes.bytes b b' =>
    cases hkey
    exact .inl rfl
  case foreign.foreign x y => exact .inr (.inr (.inr ⟨x, y, rfl, rfl, h.shown x y rfl rfl⟩))
  case list.list items items' => cases h.isKey
  case dict.dict entries entries' => cases h.isKey
  -- no other two values are of one type
  all_goals
    have htype := h.type
    simp only [typeName] at htype
    first
      | exact absurd htype (by decide)
      | exact absurd htype (Foreign.typeName_ne (by decide) _)
      | exact absurd htype.symm (Foreign.typeName_ne (by decide) _)

namespace Filter

variable {v w : Value} {column text : String} {f : Filter} {value value' : String → Value} {fault : Fault}

/-! ### One value -/

theorem sameValue_of_alike (h : v.Alike w) (column text : String) :
    sameValue column v text = sameValue column w text := by
  have hkey := h.key
  rcases h.eq_or with rfl | ⟨x, mark, y, mark', rfl, rfl⟩ | ⟨time, time', rfl, rfl⟩ | ⟨x, y, rfl, rfl, hplain⟩
  · rfl
  · have hequal : ∀ z, equalFloats z x = equalFloats z y := by
      intro z
      simp only [Value.key?, Option.some.injEq] at hkey
      unfold equalFloats
      cases hx : x.isNaN <;> cases hy : y.isNaN <;> simp [hx, hy] at hkey ⊢
      rw [hkey]
    simp only [sameValue, readAs, Value.typeName, hequal]
  · rw [Value.key?, Value.key?, Option.some.injEq] at hkey
    simp only [sameValue, readAs, Value.typeName, hkey]
  · have hshown : ∀ z, sameValue column (.foreign z) text = .ok (z.plain.toList = text.toList) := fun _ => rfl
    rw [hshown, hshown, hplain]

private theorem kind_of_readAs {α : Type} {read : Option α} (h : readAs column text v read = .error fault) :
    fault.kind = .invalidArgument := by
  cases read with
  | none =>
    cases h
    rfl
  | some x => cases h

/-- A comparison fails because of its text, or because what it looks at has none. -/
theorem kind_or_of_sameValue (h : sameValue column v text = .error fault) :
    fault.kind = .invalidArgument ∨ (fault = .unprintable ∧ ¬ v.prints) := by
  have hread : ∀ {α : Type} {read : Option α} {next : α → Bool},
      (do return next (← readAs column text v read) : Except Fault Bool) = .error fault →
        fault.kind = .invalidArgument := by
    intro α read next h
    exact kind_of_readAs (Except.bind_pure_eq_error.1 h)
  cases v with
  | bool b =>
    left
    unfold sameValue at h
    dsimp only at h
    split at h
    · cases h
    · split at h
      · cases h
      · cases h
        rfl
  | int n => exact .inl (hread h)
  | float x mark => exact .inl (hread h)
  | timestamp time => exact .inl (hread h)
  | date d => exact .inl (hread h)
  | null => cases h
  | broken s => cases h
  | text s | bytes b | foreign x | list items | dict entries =>
    unfold sameValue at h
    dsimp only at h
    split at h
    · cases h
    · cases h
      exact .inr ⟨rfl, ‹_›⟩

theorem kind_of_sameValue (hv : v.prints) (h : sameValue column v text = .error fault) :
    fault.kind = .invalidArgument :=
  (kind_or_of_sameValue h).resolve_right fun hnone => hnone.2 hv

/-! ### Groups -/

private theorem matchesGroup_congr {g : List (String × String)}
    (h : ∀ e ∈ g, sameValue e.1 (value e.1) e.2 = sameValue e.1 (value' e.1) e.2) :
    matchesGroup value g = matchesGroup value' g := by
  induction g with
  | nil => rfl
  | cons e rest ih =>
    rw [List.forall_mem_cons] at h
    rw [matchesGroup, matchesGroup, h.1, ih h.2]

private theorem kind_of_matchesGroup {g : List (String × String)} (hv : ∀ e ∈ g, (value e.1).prints)
    (h : matchesGroup value g = .error fault) : fault.kind = .invalidArgument := by
  induction g with
  | nil => cases h
  | cons e rest ih =>
    rw [List.forall_mem_cons] at hv
    rcases Except.bind_eq_error.1 h with h | ⟨b, -, h⟩
    · exact kind_of_sameValue hv.1 h
    · cases b with
      | false => cases h
      | true => exact ih hv.2 h

/-! ### Filters -/

theorem mem_distinctBy_id {α : Type} [DecidableEq α] {x : α} {xs : List α} : x ∈ distinctBy id xs ↔ x ∈ xs := by
  induction xs with
  | nil => simp [distinctBy]
  | cons y rest ih =>
    rw [distinctBy, List.mem_cons, List.mem_cons, List.mem_filter, ih]
    by_cases hxy : x = y <;> simp [hxy]

theorem mem_columns {c : String} : c ∈ f.columns ↔ ∃ g ∈ f.groups, ∃ e ∈ g, e.1 = c := by
  rw [columns, (Order.sorted_perm _ _).mem_iff, mem_distinctBy_id, List.mem_map]
  constructor
  · rintro ⟨e, he, rfl⟩
    obtain ⟨g, hg, he⟩ := List.mem_flatten.1 he
    exact ⟨g, hg, e, he, rfl⟩
  · rintro ⟨g, hg, e, he, rfl⟩
    exact ⟨e, List.mem_flatten.2 ⟨g, hg, he⟩, rfl⟩

/-- What a filter does depends on what it finds in the columns that it names. -/
theorem selects_congr (h : ∀ c ∈ f.columns, ∀ text, sameValue c (value c) text = sameValue c (value' c) text) :
    f.selects value = f.selects value' := by
  have hgroups : ∀ g ∈ f.groups, matchesGroup value g = matchesGroup value' g := fun g hg =>
    matchesGroup_congr fun e he => h e.1 (mem_columns.2 ⟨g, hg, e, he, rfl⟩) e.2
  unfold selects
  generalize f.groups = groups at hgroups
  induction groups with
  | nil => rfl
  | cons g rest ih =>
    rw [List.forall_mem_cons] at hgroups
    rw [matchesSome, matchesSome, hgroups.1, ih hgroups.2]

theorem kind_of_selects (hv : ∀ c ∈ f.columns, (value c).prints) (h : f.selects value = .error fault) :
    fault.kind = .invalidArgument := by
  have hgroups : ∀ g ∈ f.groups, ∀ e ∈ g, (value e.1).prints := fun g hg e he =>
    hv e.1 (mem_columns.2 ⟨g, hg, e, he, rfl⟩)
  unfold selects at h
  generalize f.groups = groups at h hgroups
  induction groups with
  | nil => cases h
  | cons g rest ih =>
    rw [List.forall_mem_cons] at hgroups
    rcases Except.bind_eq_error.1 h with h | ⟨b, -, h⟩
    · exact kind_of_matchesGroup hgroups.1 h
    · cases b with
      | false => exact ih h hgroups.2
      | true => cases h

/-- A filter that names partition columns only can be bound. -/
theorem bind_eq_ok {keys : List String} (h : ∀ c ∈ f.columns, c ∈ keys) : f.bind keys = .ok ⟨keys, f⟩ := by
  have hnone : f.columns.filter (!keys.contains ·) = [] := by
    rw [List.filter_eq_nil_iff]
    intro c hc
    simpa using h c hc
  rw [bind, hnone]

end Filter

end Compaction
