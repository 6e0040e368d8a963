import Compaction.Fault
import Compaction.Filter.Match
import Compaction.Proofs.Number.Digits

/-!
# The texts of values

A text is known by its code points (`Text.points_injective`), and one that holds half a surrogate pair has the code
points of no text of characters (`BrokenText.points_ne`). So no two lists of code points make the same text
(`Value.ofPoints_injective`). What has a text at all is decided by the whole numbers in it, each of which must be short
enough to be read (`Number.prints_iff`, `Value.printsAll_iff`).
-/

namespace Compaction

/-! ### Code points -/

theorem Text.points_injective {s t : List Char} (h : points s = points t) : s = t :=
  List.map_injective_iff.2 (fun _ _ => Char.toNat_inj.1) h

/-- Characters are no halves of surrogate pairs. -/
private theorem Text.points_any_not_isValidChar (s : List Char) : (points s).any (!Nat.isValidChar ·) = false := by
  rw [List.any_eq_false]
  intro n hn
  obtain ⟨c, -, rfl⟩ := List.mem_map.1 hn
  have hvalid : c.toNat.isValidChar := c.valid
  simp [hvalid]

private theorem Text.toNat_ofNat {n : Nat} (h : n.isValidChar) : (Char.ofNat n).toNat = n := by
  rw [Char.ofNat, dif_pos h]
  rfl

private theorem Text.ofNat_points (s : List Char) : (points s).map Char.ofNat = s := by
  have hback : Char.ofNat ∘ Char.toNat = id := funext Char.ofNat_toNat
  rw [points, List.map_map, hback, List.map_id]

/-- A text that holds half a surrogate pair is no text of characters. -/
theorem BrokenText.points_ne (b : BrokenText) (s : List Char) : b.points ≠ Text.points s := by
  intro h
  have hbroken := b.isBroken
  rw [h, Text.points_any_not_isValidChar] at hbroken
  cases hbroken

namespace Value

theorem ofPoints_points (s : List Char) : ofPoints (Text.points s) = .text (String.ofList s) := by
  have hchars := Text.points_any_not_isValidChar s
  rw [ofPoints, dif_neg (Bool.not_eq_true _ ▸ hchars), Text.ofNat_points]

private theorem key?_ofPoints (points : List Nat) : (ofPoints points).key? = some (.text points) := by
  unfold ofPoints
  split
  · rfl
  · next h =>
    rw [Bool.not_eq_true, List.any_eq_false] at h
    have hvalid : ∀ n ∈ points, n.isValidChar := by
      intro n hn
      have hchar := h n hn
      rw [Bool.not_eq_true, Bool.not_eq_false', decide_eq_true_iff] at hchar
      exact hchar
    have hpoints : Text.points (points.map Char.ofNat) = points := by
      rw [Text.points, List.map_map]
      conv_rhs => rw [← List.map_id points]
      exact List.map_congr_left fun n hn => Text.toNat_ofNat (hvalid n hn)
    rw [key?, String.toList_ofList, hpoints]

theorem ofPoints_injective {points points' : List Nat} (h : ofPoints points = ofPoints points') :
    points = points' := by
  have hkeys := congrArg key? h
  rw [key?_ofPoints, key?_ofPoints] at hkeys
  exact Key.text.inj (Option.some.inj hkeys)

end Value

/-! ### What has a text -/

theorem Number.prints_iff {n : Int} : prints n ↔ n.natAbs < 10 ^ maxDigits := by
  rw [prints, decide_eq_true_iff, Text.length_digits_le_iff (by decide)]

/-- The least whole number that has one digit too many. -/
def Number.tooLong : Int := (10 ^ maxDigits : Nat)

theorem Value.not_prints_tooLong : ¬ (Value.int Number.tooLong).prints := by
  rw [prints, Number.prints_iff, Number.tooLong, Int.natAbs_natCast]
  exact Nat.lt_irrefl _

theorem Value.printsAll_iff {vs : List Value} : printsAll vs ↔ ∀ v ∈ vs, v.prints := by
  induction vs with
  | nil => simp [printsAll]
  | cons v rest ih => rw [printsAll, Bool.and_eq_true, ih, List.forall_mem_cons]

theorem Partition.prints_iff {p : Partition} : p.prints ↔ ∀ v ∈ p, v.prints := Value.printsAll_iff

theorem Row.prints_iff {r : Row} : r.prints ↔ ∀ e ∈ r, e.2.prints := by
  rw [prints, List.all_eq_true]

theorem Row.prints_get {r : Row} (h : r.prints) (column : String) : (r.get column).prints := by
  unfold get get?
  cases hlookup : r.lookup column with
  | none => rfl
  | some v =>
    obtain ⟨before, after, rfl, -⟩ := List.lookup_eq_some_iff.1 hlookup
    exact prints_iff.1 h (column, v) (by simp)

/-- An entry that is found after another one was put has its value, or was there. -/
private theorem mem_insertEntry {α β γ : Type} [DecidableEq γ] {key : α → γ} {k : α} {v : β} {entries : List (α × β)}
    {e : α × β} (h : e ∈ insertEntry key k v entries) : e.2 = v ∨ e ∈ entries := by
  induction entries with
  | nil =>
    rw [insertEntry, List.mem_singleton] at h
    exact .inl (congrArg Prod.snd h)
  | cons e' rest ih =>
    rw [insertEntry] at h
    split at h
    · rcases List.mem_cons.1 h with rfl | h
      · exact .inl rfl
      · exact .inr (List.mem_cons_of_mem e' h)
    · rcases List.mem_cons.1 h with rfl | h
      · exact .inr List.mem_cons_self
      · exact (ih h).imp_right (List.mem_cons_of_mem e')

private theorem Row.prints_ofList {entries : List (String × Value)} (h : ∀ e ∈ entries, e.2.prints) :
    (Row.ofList entries).prints := by
  rw [prints_iff]
  refine List.foldlRecOn (motive := fun r : Row => ∀ e ∈ r, e.2.prints) entries _ (by simp) ?_
  intro r hr e he e' he'
  rcases mem_insertEntry he' with hv | hold
  · rw [hv]
    exact h e he
  · exact hr e' hold

/-- A partition has a text as a row if it has one. -/
theorem Predicate.prints_row {partition : Partition} (h : partition.prints) (p : Predicate) :
    (p.row partition).prints :=
  Row.prints_ofList fun _ he => Partition.prints_iff.1 h _ (List.of_mem_zip he).2

mutual
theorem Value.prints_unmarked : ∀ v : Value, v.unmarked.prints = v.prints
  | .float _ _ | .null | .bool _ | .int _ | .text _ | .broken _ | .date _ | .timestamp _ | .bytes _ | .foreign _ => rfl
  | .list items => printsAll_unmarked items
  | .dict entries => printsEntries_unmarked entries

private theorem Value.printsAll_unmarked : ∀ items : List Value, printsAll (unmarkedAll items) = printsAll items
  | [] => rfl
  | v :: rest => by rw [unmarkedAll, printsAll, printsAll, v.prints_unmarked, printsAll_unmarked rest]

private theorem Value.printsEntries_unmarked :
    ∀ entries : List (Value × Value), printsEntries (unmarkedEntries entries) = printsEntries entries
  | [] => rfl
  | (k, v) :: rest => by
    rw [unmarkedEntries, printsEntries, printsEntries, k.prints_unmarked, v.prints_unmarked,
      printsEntries_unmarked rest]
end

theorem Partition.prints_unmarked {p : Partition} : Partition.prints (p.map Value.unmarked) ↔ p.prints := by
  rw [prints_iff, prints_iff, List.forall_mem_map]
  simp only [Value.prints_unmarked]

namespace Fault

variable {f : Fault}

theorem raised_of_prints (h : f.prints) : f.raised = f := if_pos h

theorem raised_of_not_prints (h : ¬ f.prints) : f.raised = .unprintable := if_neg h

end Fault

end Compaction
