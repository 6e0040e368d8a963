import Compaction.Proofs.Order.Cells
import Compaction.Proofs.Order.Nesting

/-!
# The Hilbert curve cell by cell

The highest bits of the coordinates tell which cell of a cube a point lies in (`upper`), and no turning changes them
(`upper_turnLevels`). The curve passes through the cells in the order of their numbers, and through each of them as
through a smaller cube, backwards in every second one (`hilbertPlace_succ`): a set highest bit of the last coordinate
flips all lower bits of all coordinates, which turns the places within the cell around (`zPlace_complement`).
-/

namespace Compaction.Order

variable {point point' : List Nat} {k q j levels : Nat}

/-! ### Highest bits -/

/-- The bits of a level, which tell the cell. -/
def upper (k : Nat) (point : List Nat) : List Bool := point.map (·.testBit k)

theorem length_upper (k : Nat) (point : List Nat) : (upper k point).length = point.length := List.length_map _

/-- What is flipped lies below the level. -/
private theorem testBit_flip (c : Nat) (h : q ≤ j) : (c ^^^ (Nat.pow 2 q - 1)).testBit j = c.testBit j := by
  rw [← testBit_xor_low c (Nat.pow 2 q - 1) h, Nat.and_self]

private theorem upper_turnRest (h : q ≤ j) (first : Nat) (point : List Nat) :
    (turnRest q first point).1.testBit j = first.testBit j ∧ upper j (turnRest q first point).2 = upper j point := by
  induction point generalizing first with
  | nil => exact ⟨rfl, rfl⟩
  | cons c rest ih =>
    have hturn : (turn q first c).1.testBit j = first.testBit j ∧ (turn q first c).2.testBit j = c.testBit j := by
      unfold turn
      split
      · exact ⟨testBit_flip first h, rfl⟩
      · exact ⟨testBit_xor_low _ _ h, testBit_xor_low _ _ h⟩
    obtain ⟨hfirst, hrest⟩ := ih (turn q first c).1
    refine ⟨hfirst.trans hturn.1, ?_⟩
    simp only [upper, turnRest, List.map_cons] at hrest ⊢
    rw [hrest, hturn.2]

private theorem upper_turnAll (h : q ≤ j) (point : List Nat) : upper j (turnAll q point) = upper j point := by
  cases point with
  | nil => rfl
  | cons first rest =>
    obtain ⟨hfirst, hrest⟩ :=
      upper_turnRest h (if first.testBit q then first ^^^ (Nat.pow 2 q - 1) else first) rest
    have hturned : (if first.testBit q then first ^^^ (Nat.pow 2 q - 1) else first).testBit j = first.testBit j := by
      split
      · exact testBit_flip first h
      · rfl
    simp only [upper, turnAll, List.map_cons] at hrest ⊢
    rw [hfirst, hturned, hrest]

theorem length_turnAll (q : Nat) (point : List Nat) : (turnAll q point).length = point.length := by
  rw [← length_upper q, upper_turnAll (Nat.le_refl q), length_upper]

theorem turnAll_ne_nil (h : point ≠ []) : turnAll q point ≠ [] := by
  rwa [← List.length_pos_iff, length_turnAll, List.length_pos_iff]

theorem upper_turnLevels (h : levels ≤ j) (point : List Nat) : upper j (turnLevels levels point) = upper j point := by
  induction levels generalizing point with
  | zero => rfl
  | succ levels ih => rw [turnLevels, ih (by omega), upper_turnAll h]

/-! ### Places cell by cell -/

private theorem turnLevels_eq (k : Nat) (point : List Nat) :
    turnLevels k point = turnLevels (k - 1) (turnAll k point) := by
  cases k with
  | zero => rw [turnAll_zero]
  | succ k => rfl

private theorem flips_eq (last k : Nat) :
    flips last k = flips last (k - 1) ^^^ (if last.testBit k then 2 ^ k - 1 else 0) := by
  cases k with
  | zero => simp [flips]
  | succ k => exact Nat.xor_comm _ _

/-- What is flipped lies below the levels. -/
private theorem flips_lt_two_pow (last levels : Nat) : flips last levels < 2 ^ levels := by
  induction levels with
  | zero => exact Nat.one_pos
  | succ q ih =>
    have hpow : 2 ^ q < 2 ^ (q + 1) := Nat.pow_lt_pow_succ (by decide)
    refine Nat.xor_lt_two_pow ?_ (Nat.lt_trans ih hpow)
    split
    · exact low_lt (Nat.le_refl _)
    · exact Nat.two_pow_pos _

private theorem bitColumn_congr (h : upper k point = upper k point') (z : Nat) :
    bitColumn k point z = bitColumn k point' z := by
  have hfold : ∀ p : List Nat, bitColumn k p z = (upper k p).foldl (fun z b => 2 * z + b.toNat) z := by
    intro p
    rw [bitColumn, upper, List.foldl_map]
    simp only [div_pow_mod_two]
  rw [hfold, hfold, h]

/-- The digits of a cell are the highest bits, combined along the coordinates. -/
private theorem bitColumn_running (k acc : Nat) (point : List Nat) (z : Nat) :
    bitColumn k (running acc point) z = cellNumber (acc.testBit k) (upper k point) z := by
  induction point generalizing acc z with
  | nil => rfl
  | cons c rest ih =>
    have hcons : bitColumn k (running acc (c :: rest)) z =
        bitColumn k (running (acc ^^^ c) rest) (2 * z + (acc ^^^ c) / Nat.pow 2 k % 2) := rfl
    rw [hcons, ih, div_pow_mod_two, Nat.testBit_xor]
    rfl

private theorem bitColumn_mod_two (k : Nat) (point : List Nat) (h : point ≠ []) (z : Nat) :
    bitColumn k point z % 2 = ((point.getLastD 0).testBit k).toNat := by
  cases point using List.reverseRecOn with
  | nil => exact absurd rfl h
  | append_singleton init last =>
    have hlast : bitColumn k (init ++ [last]) z = 2 * bitColumn k init z + last / Nat.pow 2 k % 2 := by
      rw [bitColumn, List.foldl_append]
      rfl
    have hdigit := Bool.toNat_lt (last.testBit k)
    rw [hlast, div_pow_mod_two, List.getLastD_concat]
    omega

private theorem hilbertTranspose_succ (point : List Nat) (k : Nat) : hilbertTranspose point (k + 1) =
    (hilbertTranspose (turnAll k point) k).map
      (· ^^^ if ((running 0 (turnLevels k point)).getLastD 0).testBit k then 2 ^ k - 1 else 0) := by
  rw [hilbertTranspose, hilbertTranspose, ← turnLevels_eq, List.map_map]
  refine List.map_congr_left fun c _ => ?_
  rw [Nat.add_one_sub_one, flips_eq, ← Nat.xor_assoc]
  rfl

private theorem bitColumn_complement (hj : j < k) (point : List Nat) :
    bitColumn j (point.map (· ^^^ (2 ^ k - 1))) 0 + bitColumn j point 0 + 1 = 2 ^ point.length := by
  induction point with
  | nil => rfl
  | cons c rest ih =>
    have hcons : ∀ c rest, bitColumn j (c :: rest) 0 = (c.testBit j).toNat * 2 ^ rest.length + bitColumn j rest 0 := by
      intro c rest
      rw [← div_pow_mod_two, ← bitColumn_eq_add]
      show bitColumn j rest (2 * 0 + _) = _
      rw [Nat.mul_zero, Nat.zero_add]
    rw [List.map_cons, hcons, hcons, List.length_map, Nat.testBit_xor, Nat.testBit_two_pow_sub_one, decide_eq_true hj,
      List.length_cons, Nat.pow_succ, ← ih]
    cases c.testBit j <;> simp <;> omega

/-- Flipping all bits turns the places around. -/
theorem zPlace_complement {bits : Nat} (hbits : bits ≤ k) (point : List Nat) :
    zPlace (point.map (· ^^^ (2 ^ k - 1))) bits + zPlace point bits + 1 = 2 ^ (bits * point.length) := by
  induction bits with
  | zero => simp [zPlace, interleave]
  | succ bits ih =>
    have hcolumn := bitColumn_complement hbits point
    have hrest := ih (by omega)
    rw [zPlace_succ, zPlace_succ, List.length_map]
    generalize zPlace (point.map (· ^^^ (2 ^ k - 1))) bits = low' at hrest ⊢
    calc bitColumn bits (point.map (· ^^^ (2 ^ k - 1))) 0 * 2 ^ (bits * point.length) + low' +
          (bitColumn bits point 0 * 2 ^ (bits * point.length) + zPlace point bits) + 1
        = (bitColumn bits (point.map (· ^^^ (2 ^ k - 1))) 0 + bitColumn bits point 0) * 2 ^ (bits * point.length) +
            (low' + zPlace point bits + 1) := by ring
      _ = (bitColumn bits (point.map (· ^^^ (2 ^ k - 1))) 0 + bitColumn bits point 0 + 1) *
            2 ^ (bits * point.length) := by rw [hrest]; ring
      _ = 2 ^ ((bits + 1) * point.length) := by rw [hcolumn, Nat.succ_mul, Nat.pow_add, Nat.mul_comm]

/-- The number of the cell that a point lies in, along the curve. -/
def cellOf (k : Nat) (point : List Nat) : Nat := cellNumber false (upper k point) 0

/-- The place of a point within its cell: the curve goes backwards through the odd cells. -/
def placeInCell (k : Nat) (point : List Nat) : Nat :=
  if cellOf k point % 2 = 1 then 2 ^ (k * point.length) - 1 - hilbertPlace (turnAll k point) k
  else hilbertPlace (turnAll k point) k

/-- Cell by cell the curve goes the way of the curve through a smaller cube. -/
theorem hilbertPlace_succ (h : point ≠ []) (k : Nat) :
    hilbertPlace point (k + 1) = cellOf k point * 2 ^ (k * point.length) + placeInCell k point := by
  have hcell : bitColumn k (running 0 (turnLevels k point)) 0 = cellOf k point := by
    rw [bitColumn_running, Nat.zero_testBit, upper_turnLevels (Nat.le_refl k)]
    rfl
  have hcolumn : bitColumn k (hilbertTranspose point (k + 1)) 0 = cellOf k point := by
    rw [← hcell]
    refine bitColumn_congr ?_ 0
    rw [upper, upper, hilbertTranspose, List.map_map]
    refine List.map_congr_left fun c _ => ?_
    -- what is flipped lies below the highest bit
    have hlow := Nat.testBit_lt_two_pow (flips_lt_two_pow ((running 0 (turnLevels k point)).getLastD 0) k)
    rw [Function.comp, Nat.testBit_xor, Nat.add_one_sub_one, hlow, Bool.xor_false]
  have hodd : ((running 0 (turnLevels k point)).getLastD 0).testBit k ↔ cellOf k point % 2 = 1 := by
    have hne : running 0 (turnLevels k point) ≠ [] := by
      rwa [← List.length_pos_iff, length_running, length_turnLevels, List.length_pos_iff]
    rw [← hcell, bitColumn_mod_two k _ hne, Bool.toNat_eq_one]
  rw [hilbertPlace, zPlace_succ, hcolumn, length_hilbertTranspose, hilbertTranspose_succ, placeInCell]
  congr 1
  by_cases hcase : cellOf k point % 2 = 1
  · rw [if_pos hcase]
    simp only [hodd.2 hcase, if_true]
    have hcomplement := zPlace_complement (Nat.le_refl k) (hilbertTranspose (turnAll k point) k)
    rw [length_hilbertTranspose, length_turnAll] at hcomplement
    rw [hilbertPlace]
    omega
  · rw [if_neg hcase]
    simp only [mt hodd.1 hcase, Bool.false_eq_true, if_false, Nat.xor_zero, List.map_id']
    rfl

theorem hilbertPlace_turnAll_lt (k : Nat) (point : List Nat) :
    hilbertPlace (turnAll k point) k < 2 ^ (k * point.length) := by
  have hlt := hilbertPlace_lt (turnAll k point) k
  rwa [length_turnAll] at hlt

theorem placeInCell_lt (k : Nat) (point : List Nat) : placeInCell k point < 2 ^ (k * point.length) := by
  have hlt := hilbertPlace_turnAll_lt k point
  unfold placeInCell
  split <;> omega

theorem cellOf_lt (k : Nat) (point : List Nat) : cellOf k point < 2 ^ point.length := by
  have hbounds := (cellNumber_bounds false (upper k point) 0).2
  rwa [Nat.zero_add, Nat.one_mul, length_upper] at hbounds

end Compaction.Order
