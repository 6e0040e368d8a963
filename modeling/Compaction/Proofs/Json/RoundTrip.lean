import Compaction.Proofs.Json.Reading
import Compaction.Proofs.Value.Text

/-!
# Written values are read back

What is written for a value consists of tokens that stand for it (`Restores`): for the plain values and texts one token
each, for a list or an object the tokens of its parts. A number has a written form exactly if it is finite and, if it is
whole, not too long to be read (`exists_write_iff`).
-/

namespace Compaction

open Text

/-- Whether the number in the value, if it is one, can be written and read. -/
def Value.Writable : Value → Prop
  | .int n => n.natAbs < 10 ^ Number.maxDigits
  | .float x _ => x.isNaN = false ∧ x.isInfinite = false
  | _ => True

instance : DecidablePred Value.Writable
  | .int n => inferInstanceAs (Decidable (n.natAbs < 10 ^ Number.maxDigits))
  | .float x _ => inferInstanceAs (Decidable (x.isNaN = false ∧ x.isInfinite = false))
  | .null | .bool _ | .text _ | .broken _ | .date _ | .timestamp _ | .bytes _ | .foreign _ | .list _ | .dict _ =>
    isTrue trivial

namespace Json

theorem writeInt_eq_ok {n : Int} {s : List Char} :
    writeInt n = .ok s ↔ n.natAbs < 10 ^ Number.maxDigits ∧ s = Text.signed n := by
  rw [writeInt, ← Number.prints_iff]
  cases Number.prints n with
  | true => simp [eq_comm]
  | false => simp

theorem writeFloat_eq_ok {x : Float64} {s : List Char} :
    writeFloat x = .ok s ↔ (x.isNaN = false ∧ x.isInfinite = false) ∧ s = x.text := by
  rw [writeFloat]
  cases x.isNaN <;> cases x.isInfinite <;> simp [eq_comm]

private theorem writeItems_writeAll (items : List Value) : writeItems (writeAll items) = items.mapM write := by
  induction items with
  | nil => rfl
  | cons v rest ih => rw [writeAll, writeItems, List.mapM_cons, ih]

private theorem write_list_eq_ok {items : List Value} {s : List Char} : write (.list items) = .ok s ↔
    ∃ parts, List.Forall₂ (fun v part => write v = .ok part) items parts ∧
      s = '[' :: (joinWith [','] parts ++ [']']) := by
  rw [write, writeItems_writeAll, Except.bind_eq_ok]
  constructor
  · rintro ⟨parts, hparts, h⟩
    exact ⟨parts, Except.mapM_eq_ok.1 hparts, (Except.ok.inj h).symm⟩
  · rintro ⟨parts, hparts, rfl⟩
    exact ⟨parts, Except.mapM_eq_ok.2 hparts, rfl⟩

theorem exists_write_list_iff {items : List Value} :
    (∃ s, write (.list items) = .ok s) ↔ ∀ v ∈ items, ∃ s, write v = .ok s := by
  rw [← Except.exists_mapM_eq_ok, ← writeItems_writeAll, write]
  constructor
  · rintro ⟨s, h⟩
    obtain ⟨parts, hparts, -⟩ := Except.bind_eq_ok.1 h
    exact ⟨parts, hparts⟩
  · rintro ⟨parts, hparts⟩
    exact ⟨_, by rw [hparts]; rfl⟩

/-- What is written for the first value is tokens that stand for the second. -/
def Restores (depth : Nat) (v v' : Value) : Prop :=
  ∀ s, write v = .ok s → ∃ ts, Scans s ts ∧ Stands depth ts v'

theorem restores_null : Restores 0 .null .null := by
  intro s h
  cases h
  exact ⟨_, scans_null, stands_plain _⟩

theorem restores_bool (b : Bool) : Restores 0 (.bool b) (.bool b) := by
  intro s h
  cases h
  exact ⟨_, scans_bool b, stands_plain _⟩

theorem restores_int (n : Int) : Restores 0 (.int n) (.int n) := by
  intro s h
  obtain ⟨hshort, rfl⟩ := writeInt_eq_ok.1 h
  exact ⟨_, scans_int ((length_digits_le_iff (by decide)).2 hshort), stands_plain _⟩

theorem restores_float (x : Float64) (mark : Nat) : Restores 0 (.float x mark) (.float x 0) := by
  intro s h
  obtain ⟨hfinite, rfl⟩ := writeFloat_eq_ok.1 h
  exact ⟨_, scans_float (Float64.magnitude_lt_infinite_iff.2 hfinite), stands_plain _⟩

theorem restores_text (s : String) : Restores 0 (.text s) (.text s) := by
  intro text h
  cases h
  have hstands := stands_points (points s.toList)
  rw [Value.ofPoints_points, String.ofList_toList] at hstands
  exact ⟨_, (closes_text s.toList).scans, hstands⟩

private theorem exists_tokens {depth : Nat} {items items' : List Value} (h : List.Forall₂ (Restores depth) items items')
    {parts : List (List Char)} (hparts : List.Forall₂ (fun v part => write v = .ok part) items parts) :
    ∃ tokens, List.Forall₂ Scans parts tokens ∧ List.Forall₂ (Stands depth) tokens items' := by
  induction h generalizing parts with
  | nil =>
    cases hparts
    exact ⟨[], .nil, .nil⟩
  | cons hv _ ih =>
    cases hparts with
    | cons hpart hrest =>
      obtain ⟨tokens, hscans, hstands⟩ := ih hrest
      obtain ⟨ts, hts, hts'⟩ := hv _ hpart
      exact ⟨ts :: tokens, .cons hts hscans, .cons hts' hstands⟩

theorem restores_list {depth : Nat} {items items' : List Value} (h : List.Forall₂ (Restores depth) items items') :
    Restores (depth + 1) (.list items) (.list items') := by
  intro s hs
  obtain ⟨parts, hparts, rfl⟩ := write_list_eq_ok.1 hs
  obtain ⟨tokens, hscans, hstands⟩ := exists_tokens h hparts
  exact ⟨_, (closes_enclosed hscans rfl rfl).scans, stands_list hstands⟩

end Json

end Compaction
