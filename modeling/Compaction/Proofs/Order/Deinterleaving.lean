import Compaction.Proofs.Order.Hilbert
import Mathlib.Data.Int.Bitwise

/-!
# Coordinates of a place

Every `n`-th bit of a place on the Z-order curve belongs to the same coordinate (`strand`), so the point can be read
off its place (`zPoint_zPlace`) and the place is that of the point (`zPlace_zPoint`). For whole coordinates, negative
ones included, this says where each of their bits is found in the place (`zPosition_interleaves`), and that the places
of the points of a cube are all numbers below its size (`zPosition_bijOn`).
-/

namespace Compaction.Order

variable {point : List Nat} {n k bits i j place : Nat}

/-! ### Strands of bits -/

/-- Every `n`-th bit of a place, from the `k`-th one on, as a number of its own. -/
def strand (n k bits place : Nat) : Nat := Nat.ofBits fun j : Fin bits => place.testBit (j * n + k)

/-- The point with `n` coordinates that a place belongs to: the last coordinate has the lowest strand. -/
def zPoint (n bits place : Nat) : List Nat := (List.range n).map fun i => strand n (n - 1 - i) bits place

private theorem testBit_strand (hj : j < bits) : (strand n k bits place).testBit j = place.testBit (j * n + k) :=
  Nat.testBit_ofBits_lt _ j hj

private theorem testBit_strand_of_le (hj : bits ≤ j) : (strand n k bits place).testBit j = false :=
  Nat.testBit_ofBits_ge _ j hj

private theorem strand_lt (n k bits place : Nat) : strand n k bits place < 2 ^ bits := Nat.ofBits_lt_two_pow _

private theorem length_zPoint (n bits place : Nat) : (zPoint n bits place).length = n := by
  rw [zPoint, List.length_map, List.length_range]

private theorem fits_zPoint (n bits place : Nat) : Fits bits (zPoint n bits place) := by
  intro c hc
  obtain ⟨i, -, rfl⟩ := List.mem_map.1 hc
  exact strand_lt n (n - 1 - i) bits place

private theorem getElem_zPoint (hi : i < (zPoint n bits place).length) :
    (zPoint n bits place)[i] = strand n (n - 1 - i) bits place := by
  simp [zPoint]

/-- The strands of a place are the lowest bits of the coordinates. -/
private theorem strand_zPlace (hi : i < point.length) :
    strand point.length (point.length - 1 - i) bits (zPlace point bits) = point[i] % 2 ^ bits := by
  apply Nat.eq_of_testBit_eq
  intro j
  rw [Nat.testBit_mod_two_pow]
  by_cases hj : j < bits
  · rw [testBit_strand hj, testBit_zPlace hi hj, decide_eq_true hj, Bool.true_and]
  · rw [testBit_strand_of_le (Nat.le_of_not_lt hj), decide_eq_false hj, Bool.false_and]

/-! ### Points and places -/

/-- A point is read off its place, but for what does not fit into the bits. -/
theorem zPoint_zPlace (point : List Nat) (bits : Nat) :
    zPoint point.length bits (zPlace point bits) = point.map (· % 2 ^ bits) := by
  refine List.ext_getElem (by rw [length_zPoint, List.length_map]) fun i hi hi' => ?_
  have hlt : i < point.length := by rwa [List.length_map] at hi'
  rw [getElem_zPoint, strand_zPlace hlt, List.getElem_map]

theorem zPlace_zPoint (h : place < 2 ^ (bits * n)) : zPlace (zPoint n bits place) bits = place := by
  -- a bit of the place lies in the column of one of its levels, on the strand of one of the coordinates
  have hlength : (zPoint n bits place).length = n := length_zPoint n bits place
  have hplace : zPlace (zPoint n bits place) bits < 2 ^ (bits * n) := by
    have hlt := zPlace_lt (zPoint n bits place) bits
    rwa [hlength] at hlt
  apply Nat.eq_of_testBit_eq
  intro m
  by_cases hm : m < bits * n
  · have hn : 0 < n := Nat.pos_of_mul_pos_left (Nat.zero_lt_of_lt hm)
    have hlevel : m / n < bits := Nat.div_lt_of_lt_mul (by rwa [Nat.mul_comm])
    have hstrand : m % n < n := Nat.mod_lt m hn
    have hi : n - 1 - m % n < (zPoint n bits place).length := by omega
    have hback : n - 1 - (n - 1 - m % n) = m % n := by omega
    have hsplit : m / n * n + m % n = m := by
      rw [Nat.mul_comm]
      exact Nat.div_add_mod m n
    have hbit := testBit_zPlace hi hlevel
    rw [hlength, hback, hsplit] at hbit
    rw [hbit, getElem_zPoint, testBit_strand hlevel, hback, hsplit]
  · have hbeyond : 2 ^ (bits * n) ≤ 2 ^ m := Nat.pow_le_pow_right Nat.two_pos (Nat.le_of_not_lt hm)
    rw [Nat.testBit_lt_two_pow (Nat.lt_of_lt_of_le hplace hbeyond),
      Nat.testBit_lt_two_pow (Nat.lt_of_lt_of_le h hbeyond)]

/-! ### Whole coordinates -/

private theorem testBit_lowBits (hj : j < bits) (c : Int) : (lowBits bits c).testBit j = c.testBit j := by
  -- a negative number has the bits that the number one above its opposite has not
  cases c with
  | ofNat m =>
    have hlow : lowBits bits (.ofNat m) = m % 2 ^ bits := rfl
    rw [hlow, Nat.testBit_mod_two_pow, decide_eq_true hj, Bool.true_and]
    rfl
  | negSucc m =>
    have hlow : lowBits bits (.negSucc m) = 2 ^ bits - (m % 2 ^ bits + 1) := by
      have hlt : m % 2 ^ bits < 2 ^ bits := Nat.mod_lt m (Nat.two_pow_pos bits)
      rw [lowBits, Nat.pow_eq, Int.negSucc_emod_ofNat, Int.subNatNat_of_le hlt, Int.toNat_natCast]
    rw [hlow, Nat.testBit_two_pow_sub_succ (Nat.mod_lt m (Nat.two_pow_pos bits)), Nat.testBit_mod_two_pow,
      decide_eq_true hj, Bool.true_and, Bool.true_and]
    rfl

private theorem zPosition_eq (point : List Int) (bits : Nat) :
    zPosition point bits = zPlace (point.map (lowBits bits)) bits := by
  rw [zPosition, Int.toNat_natCast]

theorem zPosition_map_ofNat (h : Fits bits point) : zPosition (point.map Int.ofNat) bits = zPlace point bits := by
  rw [zPosition_eq, map_lowBits_ofNat h]

private theorem zPosition_lt (point : List Int) (bits : Nat) : zPosition point bits < 2 ^ (point.length * bits) := by
  have hlt := zPlace_lt (point.map (lowBits bits)) bits
  rwa [List.length_map, Nat.mul_comm, ← zPosition_eq] at hlt

private theorem map_zPoint_zPosition (point : List Int) (bits : Nat) :
    (zPoint point.length bits (zPosition point bits)).map Int.ofNat = point.map (· % 2 ^ bits) := by
  have hpoint := zPoint_zPlace (point.map (lowBits bits)) bits
  rw [List.length_map, ← zPosition_eq] at hpoint
  rw [hpoint, List.map_map, List.map_map]
  apply List.map_congr_left
  intro c _
  show ((lowBits bits c % 2 ^ bits : Nat) : Int) = c % 2 ^ bits
  rw [Nat.mod_eq_of_lt (lowBits_lt bits c), cast_lowBits]

/-- Every bit of every coordinate has a place of its own in the number that interleaves them, and there are no other
bits, so what fits of the coordinates can be read off it. -/
theorem zPosition_interleaves (point : List Int) (bits : Nat) :
    zPosition point bits < 2 ^ (point.length * bits) ∧
    (∀ (i : Fin point.length) (j : Fin bits),
      (zPosition point bits).testBit (j * point.length + (point.length - 1 - i)) = point[i].testBit j) ∧
    (zPoint point.length bits (zPosition point bits)).map Int.ofNat = point.map (· % 2 ^ bits) := by
  refine ⟨zPosition_lt point bits, ?_, map_zPoint_zPosition point bits⟩
  intro i j
  have hlength : (point.map (lowBits bits)).length = point.length := List.length_map _
  have hi : i < (point.map (lowBits bits)).length := by
    rw [hlength]
    exact i.isLt
  have hbit := testBit_zPlace hi j.isLt
  rw [hlength, List.getElem_map, testBit_lowBits j.isLt, ← zPosition_eq] at hbit
  exact hbit

/-- The columns of bits are 10, 01 and 11, and of -1 all bits are set. -/
example : zPosition [5, 3] (3 : Nat) = 0b100111 ∧ zPosition [-1, 0] (3 : Nat) = 0b101010 := by decide

/-- Each number below the size of a cube is the place of exactly one of its points. -/
theorem zPosition_bijOn (n bits : Nat) :
    Set.BijOn (fun point : List Int => zPosition point bits) (grid n bits) {place | place < 2 ^ (n * bits)} := by
  have hpoint : ∀ point ∈ grid n bits, (zPoint n bits (zPosition point bits)).map Int.ofNat = point := by
    rintro point ⟨rfl, hfits⟩
    rw [map_zPoint_zPosition]
    calc point.map (· % 2 ^ bits) = point.map id :=
          List.map_congr_left fun c hc => Int.emod_eq_of_lt (hfits c hc).1 (hfits c hc).2
      _ = point := List.map_id point
  have hplace : ∀ place < 2 ^ (n * bits), zPosition ((zPoint n bits place).map Int.ofNat) bits = place := by
    intro place hlt
    rw [Nat.mul_comm] at hlt
    rw [zPosition_map_ofNat (fits_zPoint n bits place), zPlace_zPoint hlt]
  refine ⟨?_, ?_, ?_⟩
  · rintro point ⟨rfl, -⟩
    exact zPosition_lt point bits
  · intro point hp point' hp' h
    have hsame : zPosition point bits = zPosition point' bits := h
    rw [← hpoint point hp, hsame, hpoint point' hp']
  · intro place hlt
    have hgrid := mem_grid_map_ofNat (fits_zPoint n bits place)
    rw [length_zPoint] at hgrid
    exact ⟨_, hgrid, hplace place hlt⟩

end Compaction.Order
