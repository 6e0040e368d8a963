import Compaction.Order.Curve
import Mathlib.Data.List.Induction
import Mathlib.Data.Nat.Bitwise
import Mathlib.Tactic.Ring

/-!
# Interleaved bits

Interleaving puts each bit of each coordinate in a place of its own (`testBit_zPlace`) and uses no other places
(`zPlace_lt`). So points of as many coordinates that fit into the bits are told apart by their places on the Z-order
curve (`zPlace_inj`).
-/

namespace Compaction.Order

variable {point point' : List Nat} {bits i j : Nat}

/-- A bit that is read off a coordinate is one binary digit. -/
theorem div_pow_mod_two (c bit : Nat) : c / Nat.pow 2 bit % 2 = (c.testBit bit).toNat := by
  rw [Nat.pow_eq, Nat.testBit_eq_decide_div_mod_eq]
  rcases Nat.mod_two_eq_zero_or_one (c / 2 ^ bit) with h | h <;> simp [h]

theorem testBit_bitColumn (bit : Nat) (point : List Nat) (z k : Nat) : (bitColumn bit point z).testBit k =
    if h : k < point.length then (point[point.length - 1 - k]).testBit bit else z.testBit (k - point.length) := by
  -- by induction from the last coordinate, whose bit is the lowest one
  induction point using List.reverseRecOn generalizing k with
  | nil => simp [bitColumn]
  | append_singleton point c ih =>
    have hlast : bitColumn bit (point ++ [c]) z = 2 * bitColumn bit point z + (c.testBit bit).toNat := by
      rw [bitColumn, List.foldl_append, List.foldl_cons, List.foldl_nil, div_pow_mod_two]
      rfl
    rw [hlast]
    cases k with
    | zero =>
      rw [Nat.testBit_zero]
      cases hc : c.testBit bit <;> simp [hc]
    | succ k =>
      have hhalf : (2 * bitColumn bit point z + (c.testBit bit).toNat) / 2 = bitColumn bit point z := by
        have := Bool.toNat_lt (c.testBit bit)
        omega
      rw [Nat.testBit_add_one, hhalf, ih]
      by_cases hk : k < point.length
      · have hlow : point.length - (k + 1) < point.length := by omega
        have hsame : point.length - 1 - k = point.length - (k + 1) := by omega
        simp [hk, hsame, List.getElem_append_left hlow]
      · simp [hk]

/-- The bits of the number that was there before come after all that are interleaved. -/
private theorem testBit_interleave_add (point : List Nat) (bits z k : Nat) :
    (interleave point bits z).testBit (bits * point.length + k) = z.testBit k := by
  induction bits generalizing z k with
  | zero => simp [interleave]
  | succ bits ih =>
    have hplace : (bits + 1) * point.length + k = bits * point.length + (point.length + k) := by
      rw [Nat.succ_mul, Nat.add_assoc]
    rw [interleave, hplace, ih, testBit_bitColumn, dif_neg (by omega), Nat.add_sub_cancel_left]

private theorem testBit_interleave (z : Nat) (hi : i < point.length) (hj : j < bits) :
    (interleave point bits z).testBit (j * point.length + (point.length - 1 - i)) = point[i].testBit j := by
  induction bits generalizing z with
  | zero => omega
  | succ bits ih =>
    rw [interleave]
    rcases Nat.lt_or_eq_of_le (Nat.le_of_lt_succ hj) with hlow | rfl
    · exact ih _ hlow
    · -- the bits of the highest place are those of the first column
      have hback : point.length - 1 - (point.length - 1 - i) = i := by omega
      rw [testBit_interleave_add, testBit_bitColumn, dif_pos (by omega)]
      simp only [hback]

/-- Every bit of every coordinate has a place of its own. -/
theorem testBit_zPlace (hi : i < point.length) (hj : j < bits) :
    (zPlace point bits).testBit (j * point.length + (point.length - 1 - i)) = point[i].testBit j :=
  testBit_interleave 0 hi hj

theorem zPlace_lt (point : List Nat) (bits : Nat) : zPlace point bits < 2 ^ (bits * point.length) := by
  refine Nat.lt_pow_two_of_testBit _ fun k hk => ?_
  obtain ⟨k, rfl⟩ := Nat.exists_eq_add_of_le hk
  rw [zPlace, testBit_interleave_add, Nat.zero_testBit]

/-- What was there before is moved up to make room for a column. -/
theorem bitColumn_eq_add (bit : Nat) (point : List Nat) (z : Nat) :
    bitColumn bit point z = z * 2 ^ point.length + bitColumn bit point 0 := by
  induction point generalizing z with
  | nil => simp [bitColumn]
  | cons c rest ih =>
    have hcons : ∀ z, bitColumn bit (c :: rest) z = bitColumn bit rest (2 * z + c / Nat.pow 2 bit % 2) := fun _ => rfl
    rw [hcons, hcons, ih, ih (2 * 0 + _), List.length_cons, Nat.pow_succ]
    ring

private theorem interleave_eq_add (point : List Nat) (bits z : Nat) :
    interleave point bits z = z * 2 ^ (bits * point.length) + zPlace point bits := by
  induction bits generalizing z with
  | zero => simp [interleave, zPlace]
  | succ bits ih =>
    rw [zPlace, interleave, interleave, ih, ih (bitColumn bits point 0), bitColumn_eq_add bits point z, Nat.succ_mul,
      Nat.pow_add]
    ring

/-- The highest bits of the coordinates come first. -/
theorem zPlace_succ (point : List Nat) (bits : Nat) :
    zPlace point (bits + 1) = bitColumn bits point 0 * 2 ^ (bits * point.length) + zPlace point bits :=
  interleave_eq_add point bits _

/-- Points whose coordinates fit into the bits are the same if their places are. -/
theorem zPlace_inj (hlength : point.length = point'.length) (hpoint : ∀ c ∈ point, c < 2 ^ bits)
    (hpoint' : ∀ c ∈ point', c < 2 ^ bits) (h : zPlace point bits = zPlace point' bits) : point = point' := by
  refine List.ext_getElem hlength fun i hi hi' => Nat.eq_of_testBit_eq fun j => ?_
  by_cases hj : j < bits
  · rw [← testBit_zPlace hi hj, ← testBit_zPlace hi' hj, h, hlength]
  · -- no coordinate has a bit beyond
    have hbeyond : ∀ c, c < 2 ^ bits → c.testBit j = false := fun c hc =>
      Nat.testBit_lt_two_pow (Nat.lt_of_lt_of_le hc (Nat.pow_le_pow_right Nat.two_pos (Nat.le_of_not_lt hj)))
    rw [hbeyond _ (hpoint _ (List.getElem_mem hi)), hbeyond _ (hpoint' _ (List.getElem_mem hi'))]

end Compaction.Order
