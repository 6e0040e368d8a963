import Mathlib.Data.Bool.Basic
import Mathlib.Data.List.Basic
import Mathlib.Tactic.Ring

/-!
# The order of the cells

The highest bits of the coordinates tell which cell of a cube a point lies in, and the curve passes through the cells
in the order of a reflected binary code: the digits of a cell's number are the running exclusive ors of its bits
(`cellNumber`). From one cell to the next one bit changes (`exists_changed`), and it is the bit that the way out of the
one cell and the way into the next one wait for: what turning carries on is set just behind it (`carried`).
-/

namespace Compaction.Order

variable {acc acc' b e : Bool} {bits bits' front back : List Bool} {n z z' : Nat}

/-- The number of a cell by its bits, after the digits `z` of which `acc` is the last one. -/
def cellNumber : Bool → List Bool → Nat → Nat
  | _, [], z => z
  | acc, b :: rest, z => cellNumber (acc ^^ b) rest (2 * z + (acc ^^ b).toNat)

theorem cellNumber_bounds (acc : Bool) (bits : List Bool) (z : Nat) :
    z * 2 ^ bits.length ≤ cellNumber acc bits z ∧ cellNumber acc bits z < (z + 1) * 2 ^ bits.length := by
  induction bits generalizing acc z with
  | nil => simp [cellNumber]
  | cons b rest ih =>
    obtain ⟨hlow, hhigh⟩ := ih (acc ^^ b) (2 * z + (acc ^^ b).toNat)
    have hdigit := Bool.toNat_lt (acc ^^ b)
    have hdouble : ∀ x, x * 2 ^ (rest.length + 1) = 2 * x * 2 ^ rest.length := fun x => by
      rw [Nat.pow_succ]
      ring
    rw [List.length_cons, hdouble, hdouble, cellNumber]
    refine ⟨Nat.le_trans (Nat.mul_le_mul_right _ (by omega)) hlow, Nat.lt_of_lt_of_le hhigh ?_⟩
    exact Nat.mul_le_mul_right _ (by omega)

theorem cellNumber_inj (hlength : bits.length = bits'.length)
    (h : cellNumber acc bits z = cellNumber acc bits' z') : z = z' ∧ bits = bits' := by
  -- the digits in front can be read off the number, and the bits from one digit to the next
  induction bits generalizing acc bits' z z' with
  | nil =>
    obtain rfl := List.length_eq_zero_iff.1 hlength.symm
    exact ⟨h, rfl⟩
  | cons b rest ih =>
    match bits', hlength with
    | b' :: rest', hlength =>
      have hrest : rest.length = rest'.length := Nat.succ.inj hlength
      have hdigits : 2 * z + (acc ^^ b).toNat = 2 * z' + (acc ^^ b').toNat := by
        have hbounds := cellNumber_bounds (acc ^^ b) rest (2 * z + (acc ^^ b).toNat)
        have hbounds' := cellNumber_bounds (acc ^^ b') rest' (2 * z' + (acc ^^ b').toNat)
        rw [cellNumber, cellNumber] at h
        rw [h, hrest] at hbounds
        refine Nat.le_antisymm ?_ ?_ <;>
          refine Nat.le_of_lt_succ (Nat.lt_of_mul_lt_mul_right (a := 2 ^ rest'.length) ?_)
        · exact Nat.lt_of_le_of_lt hbounds.1 hbounds'.2
        · exact Nat.lt_of_le_of_lt hbounds'.1 hbounds.2
      have hbit : b = b' := by cases acc <;> cases b <;> cases b' <;> simp at hdigits <;> first | rfl | omega
      subst hbit
      obtain ⟨-, rfl⟩ := ih hrest h
      exact ⟨by omega, rfl⟩

/-- The bits of the last cell: only the first one is set. -/
def lastCell : Nat → List Bool
  | 0 => []
  | n + 1 => true :: List.replicate n false

theorem cellNumber_replicate (acc : Bool) (n z : Nat) :
    cellNumber acc (List.replicate n false) z + acc.toNat = (z + acc.toNat) * 2 ^ n := by
  induction n generalizing z with
  | zero => simp [cellNumber]
  | succ n ih =>
    rw [List.replicate_succ, cellNumber, Bool.xor_false, ih, Nat.pow_succ]
    ring

/-- With nothing before it the last cell has the highest number, after a set digit it has the lowest one. -/
theorem cellNumber_lastCell (acc : Bool) (n z : Nat) :
    cellNumber acc (lastCell n) z + (!acc).toNat = (z + (!acc).toNat) * 2 ^ n := by
  cases n with
  | zero => simp [cellNumber, lastCell]
  | succ n =>
    rw [lastCell, cellNumber, Bool.xor_true, cellNumber_replicate, Nat.pow_succ]
    ring

private theorem length_lastCell (n : Nat) : (lastCell n).length = n := by
  cases n <;> simp [lastCell]

private theorem eq_lastCell (h : cellNumber acc bits z + (!acc).toNat = (z + (!acc).toNat) * 2 ^ bits.length) :
    bits = lastCell bits.length := by
  have hlast := cellNumber_lastCell acc bits.length z
  have hsame : cellNumber acc bits z = cellNumber acc (lastCell bits.length) z := by omega
  exact (cellNumber_inj (length_lastCell _).symm hsame).2

/-! ### What turning carries on -/

/-- The bit that is carried to the coordinate before some others, given the bit of the corner they are turned to:
coordinates with a set highest bit change what is carried, the others take it up. -/
def carried (e : Bool) : List Bool → Bool
  | [] => e
  | b :: rest => b && !carried e rest

/-- What the coordinates take up. -/
def settled (e : Bool) : List Bool → List Bool
  | [] => []
  | b :: rest => (!b && carried e rest) :: settled e rest

theorem carried_replicate (n : Nat) : carried false (List.replicate n false) = false := by
  cases n <;> rfl

theorem settled_replicate (n : Nat) : settled false (List.replicate n false) = List.replicate n false := by
  induction n with
  | zero => rfl
  | succ n ih => rw [List.replicate_succ, settled, carried_replicate, ih]; rfl

/-- A bit behind which something is carried takes it up or uses it up, so it does not matter to those before. -/
theorem carried_change (front : List Bool) (b : Bool) (h : carried e back = true) :
    carried e (front ++ (!b) :: back) = carried e (front ++ b :: back) := by
  induction front with
  | nil => simp [carried, h]
  | cons c front ih => rw [List.cons_append, List.cons_append, carried, carried, ih]

/-- Towards the last cell the way leaves each cell at the corner that its number asks for. -/
private theorem carried_lastCell (n z : Nat) :
    carried (decide (cellNumber false (lastCell n) (2 * z) % 2 = 0)) (lastCell n) = true := by
  have hnumber := cellNumber_lastCell false n (2 * z)
  cases n with
  | zero => simp [carried, lastCell, cellNumber]
  | succ n =>
    have hdouble : (2 * z + 1) * 2 ^ (n + 1) = 2 * ((2 * z + 1) * 2 ^ n) := by
      rw [Nat.pow_succ]
      ring
    rw [Bool.not_false, Bool.toNat_true, hdouble] at hnumber
    have hodd : cellNumber false (lastCell (n + 1)) (2 * z) % 2 ≠ 0 := by omega
    rw [decide_eq_false hodd, lastCell, carried, carried_replicate]
    rfl

private theorem bits_eq_of_digit_ne (hlength : bits.length = bits'.length)
    (h : cellNumber (!b) bits' (2 * z + (!b).toNat) = cellNumber b bits (2 * z + b.toNat) + 1) :
    bits' = bits ∧ carried (decide (cellNumber b bits (2 * z + b.toNat) % 2 = 0)) bits = true := by
  -- the first number ends in ones only and the second one in zeros only
  obtain ⟨hlow, hhigh⟩ := cellNumber_bounds b bits (2 * z + b.toNat)
  obtain ⟨hlow', hhigh'⟩ := cellNumber_bounds (!b) bits' (2 * z + (!b).toNat)
  rw [← hlength] at hlow' hhigh'
  cases b with
  | true =>
    -- the other way round the second number would be the smaller one
    simp only [Bool.not_true, Bool.toNat_false, Bool.toNat_true, Nat.add_zero] at h hlow hhigh'
    omega
  | false =>
    simp only [Bool.not_false, Bool.toNat_false, Bool.toNat_true, Nat.add_zero] at h hhigh hlow' ⊢
    have hlast : cellNumber false bits (2 * z) + (!false).toNat = (2 * z + (!false).toNat) * 2 ^ bits.length := by
      simp
      omega
    have hfirst : cellNumber true bits' (2 * z + 1) + (!true).toNat =
        (2 * z + 1 + (!true).toNat) * 2 ^ bits'.length := by
      simp [← hlength]
      omega
    have hbits := eq_lastCell hlast
    have hbits' := eq_lastCell hfirst
    refine ⟨by rw [hbits', ← hlength, ← hbits], ?_⟩
    rw [hbits]
    exact carried_lastCell _ _

/-- From a cell to the next one a single bit changes, behind which something is carried: from the far corner if the
number is even, and from the near one if it is odd. -/
theorem exists_changed (hlength : bits.length = bits'.length)
    (h : cellNumber acc bits' z = cellNumber acc bits z + 1) :
    ∃ front b back, bits = front ++ b :: back ∧ bits' = front ++ (!b) :: back ∧
      carried (decide (cellNumber acc bits z % 2 = 0)) back = true := by
  induction bits generalizing acc bits' z with
  | nil =>
    obtain rfl := List.length_eq_zero_iff.1 hlength.symm
    simp [cellNumber] at h
  | cons b rest ih =>
    match bits', hlength with
    | b' :: rest', hlength =>
      have hrest : rest.length = rest'.length := Nat.succ.inj hlength
      rw [cellNumber, cellNumber] at h
      by_cases hb : b' = b
      · subst hb
        obtain ⟨front, c, back, rfl, rfl, hcarried⟩ := ih hrest h
        exact ⟨b' :: front, c, back, rfl, rfl, hcarried⟩
      · obtain rfl : b' = !b := Bool.eq_not_of_ne hb
        rw [Bool.xor_not] at h
        obtain ⟨rfl, hcarried⟩ := bits_eq_of_digit_ne hrest h
        exact ⟨[], b, rest', rfl, rfl, hcarried⟩

end Compaction.Order
