import Compaction.Proofs.Order.Hilbert

/-!
# Cubes within cubes

Halving all coordinates commutes with every step of the way to a place on the Hilbert curve: with turning
(`turnLevels_halved`), with combining (`running_halved`), with flipping (`flips_halved`) and with interleaving
(`zPlace_halved`). So the place of a point without its lowest bits is the place of the sub-cube that the point lies in
(`hilbertPlace_shiftRight`), and the points of a sub-cube follow one another on the curve (`hilbertPosition_nested`).
-/

namespace Compaction.Order

variable {point : List Nat} {bits q first c : Nat}

/-- A point seen at half the resolution. -/
def halved (point : List Nat) : List Nat := point.map (· / 2)

private theorem length_halved (point : List Nat) : (halved point).length = point.length := List.length_map _

/-! ### Steps at half the resolution -/

private theorem low_halved (q : Nat) : (Nat.pow 2 (q + 1) - 1) / 2 = Nat.pow 2 q - 1 := by
  have hpos : 0 < 2 ^ q := Nat.two_pow_pos q
  simp only [Nat.pow_eq, Nat.pow_succ]
  omega

private theorem turn_halved (q first c : Nat) :
    ((turn (q + 1) first c).1 / 2, (turn (q + 1) first c).2 / 2) = turn q (first / 2) (c / 2) := by
  unfold turn
  rw [Nat.testBit_add_one]
  split
  · rw [Nat.xor_div_two, low_halved]
  · simp only [Nat.xor_div_two, Nat.and_div_two, low_halved]

private theorem turnRest_halved (q first : Nat) (point : List Nat) :
    ((turnRest (q + 1) first point).1 / 2, halved (turnRest (q + 1) first point).2) =
      turnRest q (first / 2) (halved point) := by
  induction point generalizing first with
  | nil => rfl
  | cons c rest ih =>
    have hturn := turn_halved q first c
    have hrest := ih (turn (q + 1) first c).1
    rw [Prod.ext_iff] at hturn hrest
    simp only [turnRest, halved, List.map_cons] at hturn hrest ⊢
    rw [← hturn.1, ← hturn.2, hrest.1, hrest.2]

private theorem turnAll_halved (q : Nat) (point : List Nat) :
    halved (turnAll (q + 1) point) = turnAll q (halved point) := by
  cases point with
  | nil => rfl
  | cons first rest =>
    have hfirst : (if first.testBit (q + 1) then first ^^^ (Nat.pow 2 (q + 1) - 1) else first) / 2 =
        if (first / 2).testBit q then first / 2 ^^^ (Nat.pow 2 q - 1) else first / 2 := by
      rw [Nat.testBit_add_one]
      split
      · rw [Nat.xor_div_two, low_halved]
      · rfl
    have hrest := turnRest_halved q (if first.testBit (q + 1) then first ^^^ (Nat.pow 2 (q + 1) - 1) else first) rest
    rw [Prod.ext_iff, hfirst] at hrest
    simp only [turnAll, halved, List.map_cons] at hrest ⊢
    rw [hrest.1, hrest.2]

/-- The lowest bit has no bits below that could be turned. -/
private theorem turn_zero (first c : Nat) : turn 0 first c = (first, c) := by
  unfold turn
  split <;> simp

private theorem turnRest_zero (first : Nat) (point : List Nat) : turnRest 0 first point = (first, point) := by
  induction point generalizing first with
  | nil => rfl
  | cons c rest ih => simp only [turnRest, turn_zero, ih]

theorem turnAll_zero (point : List Nat) : turnAll 0 point = point := by
  cases point with
  | nil => rfl
  | cons first rest => simp [turnAll, turnRest_zero]

theorem turnLevels_halved (levels : Nat) (point : List Nat) :
    halved (turnLevels (levels + 1) point) = turnLevels levels (halved point) := by
  -- at half the resolution the last turn is one at the lowest bit, which does nothing
  induction levels generalizing point with
  | zero =>
    show halved (turnAll 1 point) = halved point
    rw [turnAll_halved, turnAll_zero]
  | succ levels ih =>
    rw [turnLevels, ih, turnAll_halved]
    rfl

theorem running_halved (acc : Nat) (point : List Nat) :
    halved (running acc point) = running (acc / 2) (halved point) := by
  induction point generalizing acc with
  | nil => rfl
  | cons c rest ih =>
    have hrest := ih (acc ^^^ c)
    simp only [halved, running, List.map_cons, Nat.xor_div_two] at hrest ⊢
    rw [hrest]

theorem flips_halved (last levels : Nat) : flips last (levels + 1) / 2 = flips (last / 2) levels := by
  induction levels with
  | zero =>
    simp only [flips]
    split <;> rfl
  | succ levels ih =>
    rw [flips, Nat.xor_div_two, ih, Nat.testBit_add_one, flips]
    split
    · rw [low_halved]
    · rfl

private theorem getLastD_halved (point : List Nat) : (halved point).getLastD 0 = point.getLastD 0 / 2 := by
  cases point using List.reverseRecOn with
  | nil => rfl
  | append_singleton init last => simp [halved]

private theorem hilbertTranspose_halved (point : List Nat) (bits : Nat) :
    halved (hilbertTranspose point (bits + 2)) = hilbertTranspose (halved point) (bits + 1) := by
  have hturned : halved (running 0 (turnLevels (bits + 1) point)) = running 0 (turnLevels bits (halved point)) := by
    rw [running_halved, turnLevels_halved]
  rw [hilbertTranspose, hilbertTranspose, Nat.add_one_sub_one, Nat.add_one_sub_one, ← hturned, getLastD_halved,
    ← flips_halved]
  generalize running 0 (turnLevels (bits + 1) point) = turned
  simp only [halved, List.map_map]
  exact List.map_congr_left fun c _ => Nat.xor_div_two

/-! ### Places at half the resolution -/

/-- The lowest bits of the coordinates are interleaved last. -/
private theorem interleave_halved (point : List Nat) (bits z : Nat) :
    interleave point (bits + 1) z = bitColumn 0 point (interleave (halved point) bits z) := by
  induction bits generalizing z with
  | zero => rfl
  | succ bits ih =>
    have hcolumn : bitColumn (bits + 1) point z = bitColumn bits (halved point) z := by
      simp only [bitColumn, halved, List.foldl_map, div_pow_mod_two, Nat.testBit_add_one]
    rw [interleave, ih, hcolumn]
    rfl

private theorem bitColumn_shiftRight (bit : Nat) (point : List Nat) (z : Nat) :
    bitColumn bit point z >>> point.length = z := by
  refine Nat.eq_of_testBit_eq fun k => ?_
  rw [Nat.testBit_shiftRight, testBit_bitColumn, dif_neg (by omega), Nat.add_sub_cancel_left]

theorem zPlace_halved (point : List Nat) (bits : Nat) :
    zPlace point (bits + 1) >>> point.length = zPlace (halved point) bits := by
  rw [zPlace, interleave_halved, bitColumn_shiftRight]
  rfl

private theorem hilbertPlace_halved (point : List Nat) (bits : Nat) :
    hilbertPlace point (bits + 2) >>> point.length = hilbertPlace (halved point) (bits + 1) := by
  have hplace := zPlace_halved (hilbertTranspose point (bits + 2)) (bits + 1)
  rwa [length_hilbertTranspose, hilbertTranspose_halved] at hplace

/-- What is left of a place without the bits of the lowest levels is the place of the sub-cube. -/
theorem hilbertPlace_shiftRight (point : List Nat) (side bits : Nat) :
    hilbertPlace point (bits + 1 + side) >>> (side * point.length) =
      hilbertPlace (point.map (· / 2 ^ side)) (bits + 1) := by
  induction side generalizing point with
  | zero => simp
  | succ side ih =>
    have hquarter : (halved point).map (· / 2 ^ side) = point.map (· / 2 ^ (side + 1)) := by
      rw [halved, List.map_map]
      exact List.map_congr_left fun c _ => by rw [Function.comp, Nat.div_div_eq_div_mul, Nat.pow_succ']
    have hbits : bits + 1 + (side + 1) = bits + side + 2 := by omega
    have hbits' : bits + 1 + side = bits + side + 1 := by omega
    rw [Nat.succ_mul, Nat.add_comm (side * _), Nat.shiftRight_add, ← hquarter, ← ih, length_halved, hbits, hbits',
      hilbertPlace_halved]

/-! ### Whole coordinates -/

private theorem map_ofNat_div (point : List Nat) (side : Nat) :
    (point.map Int.ofNat).map (· / 2 ^ side) = (point.map (· / 2 ^ side)).map Int.ofNat := by
  rw [List.map_map, List.map_map]
  refine List.map_congr_left fun c _ => ?_
  show (c : Int) / 2 ^ side = ((c / 2 ^ side : Nat) : Int)
  push_cast
  rfl

private theorem fits_div {side : Nat} (h : Fits (bits + side) point) : Fits bits (point.map (· / 2 ^ side)) := by
  intro c hc
  obtain ⟨c, hmem, rfl⟩ := List.mem_map.1 hc
  refine Nat.div_lt_of_lt_mul ?_
  rw [← Nat.pow_add, Nat.add_comm]
  exact h c hmem

/-- The place of the sub-cube with side `2^side` that holds a point, on the curve through all such sub-cubes. -/
private theorem hilbertPosition_subcube {n bits side : Nat} (hn : 1 ≤ n) (hbits : 1 ≤ bits) {point : List Int}
    (h : point ∈ grid n (bits + side)) : ∃ place : Int, hilbertPosition point (bits + side : Nat) = .ok place ∧
      hilbertPosition (point.map (· / 2 ^ side)) bits = .ok (place >>> (side * n)) := by
  obtain rfl | htwo := Nat.eq_or_lt_of_le hn
  · obtain ⟨c, rfl⟩ := List.length_eq_one_iff.1 h.1
    refine ⟨c, rfl, ?_⟩
    rw [Nat.mul_one, Int.shiftRight_eq_div_pow]
    rfl
  · obtain ⟨coordinates, rfl, hfits, rfl⟩ := exists_coordinates h
    refine ⟨_, hilbertPosition_map_ofNat (Nat.le_add_right_of_le hbits) htwo hfits, ?_⟩
    rw [map_ofNat_div, hilbertPosition_map_ofNat hbits (by rwa [List.length_map]) (fits_div hfits)]
    obtain ⟨bits, rfl⟩ := Nat.exists_eq_add_of_le' hbits
    rw [← hilbertPlace_shiftRight, ← Int.natCast_shiftRight]

theorem hilbertPosition_inj {n bits : Nat} (hn : 1 ≤ n) (hbits : 1 ≤ bits) {point point' : List Int}
    (hpoint : point ∈ grid n bits) (hpoint' : point' ∈ grid n bits)
    (h : hilbertPosition point bits = hilbertPosition point' bits) : point = point' := by
  obtain rfl | htwo := Nat.eq_or_lt_of_le hn
  · obtain ⟨c, rfl⟩ := List.length_eq_one_iff.1 hpoint.1
    obtain ⟨c', rfl⟩ := List.length_eq_one_iff.1 hpoint'.1
    exact congrArg (fun c => [c]) (Except.ok.inj h)
  · obtain ⟨coordinates, rfl, hfits, rfl⟩ := exists_coordinates hpoint
    obtain ⟨coordinates', hlength, hfits', rfl⟩ := exists_coordinates hpoint'
    rw [hilbertPosition_map_ofNat hbits htwo hfits, hilbertPosition_map_ofNat hbits (hlength ▸ htwo) hfits'] at h
    rw [hilbertPlace_inj hbits hlength.symm hfits hfits' (Int.ofNat.inj (Except.ok.inj h))]

private theorem grid_div {n side : Nat} {point : List Int} (h : point ∈ grid n (bits + side)) :
    point.map (· / 2 ^ side) ∈ grid n bits := by
  obtain ⟨coordinates, hlength, hfits, rfl⟩ := exists_coordinates h
  rw [map_ofNat_div, ← hlength, ← List.length_map (· / 2 ^ side)]
  exact mem_grid_map_ofNat (fits_div hfits)

/-- The points of an aligned sub-cube follow one another: none between two of them lies outside. -/
private theorem hilbertPosition_consecutive {n bits side : Nat} (hn : 1 ≤ n) (hbits : 1 ≤ bits)
    {first point last : List Int} (hfirst : first ∈ grid n (bits + side)) (hpoint : point ∈ grid n (bits + side))
    (hlast : last ∈ grid n (bits + side)) {a b c : Int} (ha : hilbertPosition first (bits + side : Nat) = .ok a)
    (hb : hilbertPosition point (bits + side : Nat) = .ok b) (hc : hilbertPosition last (bits + side : Nat) = .ok c)
    (hsame : first.map (· / 2 ^ side) = last.map (· / 2 ^ side)) (hab : a ≤ b) (hbc : b ≤ c) :
    point.map (· / 2 ^ side) = first.map (· / 2 ^ side) := by
  have hplace : ∀ p ∈ grid n (bits + side), ∀ place, hilbertPosition p (bits + side : Nat) = .ok place →
      hilbertPosition (p.map (· / 2 ^ side)) bits = .ok (place >>> (side * n)) := by
    intro p hp place hplace
    obtain ⟨place', hplace', hsub⟩ := hilbertPosition_subcube hn hbits hp
    rw [hplace] at hplace'
    rwa [Except.ok.inj hplace']
  have hmono : ∀ x y : Int, x ≤ y → x >>> (side * n) ≤ y >>> (side * n) := by
    intro x y h
    rw [Int.shiftRight_eq_div_pow, Int.shiftRight_eq_div_pow]
    exact Int.ediv_le_ediv (by exact_mod_cast Nat.two_pow_pos _) h
  have hends : a >>> (side * n) = c >>> (side * n) := by
    have hboth := hplace first hfirst a ha
    rw [hsame, hplace last hlast c hc] at hboth
    exact (Except.ok.inj hboth).symm
  have hmiddle : b >>> (side * n) = a >>> (side * n) :=
    le_antisymm (hends ▸ hmono b c hbc) (hmono a b hab)
  refine hilbertPosition_inj hn hbits (grid_div hpoint) (grid_div hfirst) ?_
  rw [hplace point hpoint b hb, hplace first hfirst a ha, hmiddle]

theorem hilbertPosition_nested {n bits : Nat} (hn : 1 ≤ n) (hbits : 2 ≤ bits) :
    (∀ point ∈ grid n bits, ∃ place : Int, hilbertPosition point bits = .ok place ∧
      hilbertPosition (point.map (· / 2)) (bits - 1) = .ok (place >>> n)) ∧
    ∀ side < bits, ∀ first ∈ grid n bits, ∀ point ∈ grid n bits, ∀ last ∈ grid n bits, ∀ a b c : Int,
      hilbertPosition first bits = .ok a → hilbertPosition point bits = .ok b → hilbertPosition last bits = .ok c →
      first.map (· / 2 ^ side) = last.map (· / 2 ^ side) → a ≤ b → b ≤ c →
      point.map (· / 2 ^ side) = first.map (· / 2 ^ side) := by
  constructor
  · intro point hpoint
    obtain ⟨bits, rfl⟩ := Nat.exists_eq_add_of_le' hbits
    have hsplit : point ∈ grid n (bits + 1 + 1) := hpoint
    obtain ⟨place, hplace, hsub⟩ := hilbertPosition_subcube hn (by omega) hsplit
    refine ⟨place, hplace, ?_⟩
    rw [Nat.one_mul] at hsub
    have hlower : ((bits + 2 : Nat) : Int) - 1 = (bits + 1 : Nat) := by omega
    rw [hlower, ← hsub]
    simp only [pow_one]
  · intro side hside first hfirst point hpoint last hlast a b c ha hb hc hsame hab hbc
    obtain ⟨rest, rfl⟩ := Nat.exists_eq_add_of_le hside
    have hsplit : side.succ + rest = rest + 1 + side := by omega
    rw [hsplit] at hfirst hpoint hlast ha hb hc
    exact hilbertPosition_consecutive hn (by omega) hfirst hpoint hlast ha hb hc hsame hab hbc

/-- The far sub-cube of a cube of 64 points is the sixth of eight, and its points have the places from 40 to 47. -/
theorem hilbertPosition_nested_cube : 1 ≤ 3 ∧ 2 ≤ 2 ∧
    (∃ place : Int, hilbertPosition [3, 2, 3] (2 : Nat) = .ok place ∧
      hilbertPosition ([3, 2, 3].map (· / 2)) ((2 : Nat) - 1) = .ok (place >>> (3 : Nat))) ∧
    hilbertPosition [2, 2, 2] (2 : Nat) = .ok 40 ∧ hilbertPosition [3, 2, 3] (2 : Nat) = .ok 46 ∧
    hilbertPosition [3, 2, 2] (2 : Nat) = .ok 47 ∧
    ([3, 2, 3] : List Int).map (· / 2 ^ 1) = ([2, 2, 2] : List Int).map (· / 2 ^ 1) := by
  obtain ⟨hhalf, hbetween⟩ := @hilbertPosition_nested 3 2 (by decide) (by decide)
  refine ⟨by decide, by decide, hhalf _ (by decide), rfl, rfl, rfl, ?_⟩
  exact hbetween 1 (by decide) [2, 2, 2] (by decide) [3, 2, 3] (by decide) [3, 2, 2] (by decide) 40 46 47 rfl rfl rfl
    rfl (by decide) (by decide)

end Compaction.Order
