import Compaction.Proofs.Filter.Match
import Compaction.Proofs.Number.Numerals
import Compaction.Proofs.Order.Ranking
import Compaction.Value.Text

/-!
# Equal values as text

Equal values are the same key, or no keys (`Value.key?_eq_of_relation`), but they need not be written alike: one number
is whole, has a point or is a truth value, a zero may have a sign, an instant any offset, a dictionary its entries in
any order, and a value of an unknown type any text. Equal values that agree in these respects are written alike
(`Value.literal_eq_of_relation`).
-/

namespace Compaction

/-! ### Timestamps and numbers -/

private theorem Timestamp.eq_of_localMicros {t u : Timestamp} (h : t.localMicros = u.localMicros)
    (hoffset : t.offset = u.offset) : t = u := by
  have ht : (t.clock : Nat) < 86400000000 := t.clock.isLt
  have hu : (u.clock : Nat) < 86400000000 := u.clock.isLt
  have hlength : (dayLength : Int) = 86400000000 := rfl
  rw [localMicros, localMicros, hlength] at h
  have hdate : t.date = u.date := Date.ordinal_inj.1 (by omega)
  have hclock : t.clock = u.clock := by
    rw [hdate] at h
    exact Fin.ext (by omega)
  cases t
  cases u
  simp only at hdate hclock hoffset
  rw [hdate, hclock, hoffset]

/-- Timestamps that are the same key differ in their offsets only. -/
private theorem Timestamp.eq_of_key {t u : Timestamp} (h : t.key = u.key) (hoffset : t.offset = u.offset) : t = u := by
  refine eq_of_localMicros ?_ hoffset
  rw [key, key, hoffset] at h
  split at h
  · have hinstant := Key.instant.inj h
    rw [instant, instant, hoffset] at hinstant
    omega
  · exact Key.clock.inj h

/-- The sign and the magnitude make up a number. -/
private theorem Float64.eq_of_magnitude {x y : Float64} (h : x.magnitude = y.magnitude)
    (hsign : x.negative = y.negative) : x = y := by
  rw [← ofMagnitude_magnitude x, hsign, h, ofMagnitude_magnitude]

/-- Numbers that are the same differ in their signs only. -/
private theorem Float64.eq_of_ofFloat {x y : Float64} (hx : x.isNaN = false) (hy : y.isNaN = false)
    (h : Extended.ofFloat x = Extended.ofFloat y) (hsign : x.negative = y.negative) : x = y := by
  rw [Extended.ofFloat, Extended.ofFloat, hsign] at h
  cases hxi : x.isInfinite with
  | true =>
    cases hyi : y.isInfinite with
    | true => exact eq_of_magnitude ((beq_iff_eq.1 hxi).trans (beq_iff_eq.1 hyi).symm) hsign
    | false => cases hn : y.negative <;> simp [hxi, hyi, hn] at h
  | false =>
    cases hyi : y.isInfinite with
    | true => cases hn : y.negative <;> simp [hxi, hyi, hn] at h
    | false =>
      have hunits : x.units = y.units := by simpa [hxi, hyi] using h
      have hmagnitude : unitsOf x.magnitude = unitsOf y.magnitude := by
        rw [units, units, hsign] at hunits
        split at hunits <;> omega
      refine eq_of_magnitude ?_ hsign
      rw [← nearest_unitsOf (magnitude_lt_infinite_iff.2 ⟨hx, hxi⟩), hmagnitude,
        nearest_unitsOf (magnitude_lt_infinite_iff.2 ⟨hy, hyi⟩)]

/-- What is not a number is written without its sign. -/
private theorem Float64.text_eq_of_key {x y : Float64} {mark mark' : Nat}
    (h : (Value.float x mark).key? = (Value.float y mark').key?) (hsign : x.negative = y.negative) :
    x.text = y.text := by
  rw [Value.key?, Value.key?, Option.some.injEq] at h
  cases hx : x.isNaN with
  | true =>
    cases hy : y.isNaN with
    | true => rw [text, text, if_pos hx, if_pos hy]
    | false => simp [hx, hy] at h
  | false =>
    cases hy : y.isNaN with
    | true => simp [hx, hy] at h
    | false =>
      have hnumber : Extended.ofFloat x = Extended.ofFloat y := by simpa [hx, hy] using h
      rw [eq_of_ofFloat hx hy hnumber hsign]

namespace Value

/-! ### Equal values -/

mutual
/-- Whether two values are of one type and agree in what equal values of this type may differ in: the sign of a number,
the offset of a timestamp, the texts of a value of an unknown type, and the order of the entries of a dictionary. -/
def SameForm : Value → Value → Prop
  | null, null | bool _, bool _ | int _, int _ | text _, text _ | broken _, broken _ | date _, date _
  | bytes _, bytes _ => True
  | float x _, float y _ => x.negative = y.negative
  | timestamp t, timestamp u => t.offset = u.offset
  | foreign x, foreign y => x.typeName = y.typeName ∧ x.plain = y.plain ∧ x.literal = y.literal
  | list xs, list ys => SameForms xs ys
  | dict xs, dict ys => SameEntries xs ys
  | _, _ => False

def SameForms : List Value → List Value → Prop
  | [], [] => True
  | x :: xs, y :: ys => x.SameForm y ∧ SameForms xs ys
  | _, _ => False

/-- Whether two dictionaries have equal entries of the same form in the same order. -/
def SameEntries : List (Value × Value) → List (Value × Value) → Prop
  | [], [] => True
  | (k, v) :: xs, (l, w) :: ys =>
    (k.relation l = .same ∧ k.SameForm l) ∧ (v.relation w = .same ∧ v.SameForm w) ∧ SameEntries xs ys
  | _, _ => False
end

variable {v w : Value}

/-- Equal values are the same key, or neither is one. -/
theorem key?_eq_of_relation (h : v.relation w = .same) : v.key? = w.key? := by
  rw [relation.eq_def] at h
  split at h
  · rfl
  · rfl
  · split at h
    · next k l hk hl => rw [hk, hl, Key.eq_of_relation h]
    · cases h

private theorem typeName_eq_of_sameForm (h : v.SameForm w) : v.typeName = w.typeName := by
  cases v <;> cases w <;> first | rfl | exact h.1 | exact h.elim

/-- Values that are the same key are written alike if they are of the same form. -/
private theorem literal_eq_of_key (hkey : v.key?.isSome) (h : v.key? = w.key?) (hform : v.SameForm w) :
    v.literal = w.literal := by
  have hshown : ∀ x y, v = .foreign x → w = .foreign y → x.plain = y.plain := by
    rintro x y rfl rfl
    exact hform.2.1
  have halike : v.Alike w := ⟨hkey, h, typeName_eq_of_sameForm hform, hshown⟩
  rcases halike.eq_or with rfl | ⟨x, mark, y, mark', rfl, rfl⟩ | ⟨t, u, rfl, rfl⟩ | ⟨x, y, rfl, rfl, -⟩
  · rfl
  · exact Float64.text_eq_of_key h hform
  · rw [key?, key?, Option.some.injEq] at h
    rw [Timestamp.eq_of_key h hform]
  · exact congrArg String.toList hform.2.2

mutual
/-- Equal values of the same form are written alike. -/
theorem literal_eq_of_relation {v w : Value} (h : v.relation w = .same) (hform : v.SameForm w) :
    v.literal = w.literal := by
  cases v with
  | list xs =>
    cases w with
    | list ys =>
      rw [relation] at h
      rw [literal, literal, literals_eq_of_relation h hform]
    | _ => exact hform.elim
  | dict xs =>
    cases w with
    | dict ys => rw [literal, literal, entryLiterals_eq hform]
    | _ => exact hform.elim
  | _ => exact literal_eq_of_key rfl (key?_eq_of_relation h) hform

private theorem literals_eq_of_relation {xs ys : List Value} (h : relationLists xs ys = .same)
    (hform : SameForms xs ys) : literals xs = literals ys := by
  cases xs with
  | nil =>
    cases ys with
    | nil => rfl
    | cons y ys => exact hform.elim
  | cons x xs =>
    cases ys with
    | nil => exact hform.elim
    | cons y ys =>
      rw [relationLists, Relation.orElse] at h
      split at h
      · next hxy => rw [literals, literals, literal_eq_of_relation hxy hform.1, literals_eq_of_relation h hform.2]
      · next hxy => exact absurd h hxy

private theorem entryLiterals_eq {xs ys : List (Value × Value)} (hform : SameEntries xs ys) :
    entryLiterals xs = entryLiterals ys := by
  match xs, ys, hform with
  | [], [], _ => rfl
  | (k, v) :: xs, (l, w) :: ys, hform =>
    rw [entryLiterals, entryLiterals, literal_eq_of_relation hform.1.1 hform.1.2,
      literal_eq_of_relation hform.2.1.1 hform.2.1.2, entryLiterals_eq hform.2.2]
end

end Value

end Compaction
