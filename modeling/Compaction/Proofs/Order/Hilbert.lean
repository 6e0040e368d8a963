import Compaction.Order.Rows
import Compaction.Proofs.Order.Interleaving
import Mathlib.Data.Fintype.BigOperators
import Mathlib.Data.Set.Function

/-!
# The Hilbert curve

Every step of the way from a point to its place on the Hilbert curve can be undone: turning a coordinate against the
first one (`turn_turn`), combining each coordinate with those before it (`running_inj`), and flipping bits by the last
coordinate (`xor_flips_inj`). No step leaves the bits that the coordinates have (`fits_hilbertTranspose`), so different
points have different places (`hilbertPlace_inj`), and as there are as many places as points every place is taken
(`hilbertPosition_bijOn`).
-/

namespace Compaction.Order

variable {point point' : List Nat} {bits q first first' c c' levels : Nat}

/-! ### Turning -/

/-- Bits below a level leave the bits from the level on as they are. -/
theorem testBit_xor_low (c x : Nat) {j : Nat} (h : q ≤ j) :
    (c ^^^ (x &&& (Nat.pow 2 q - 1))).testBit j = c.testBit j := by
  rw [Nat.testBit_xor, Nat.testBit_and, Nat.pow_eq, Nat.testBit_two_pow_sub_one]
  simp [Nat.not_lt.2 h]

/-- Turning a second time undoes turning: the bit that decides how to turn is kept. -/
theorem turn_turn (q first c : Nat) : turn q (turn q first c).1 (turn q first c).2 = (first, c) := by
  by_cases hc : c.testBit q
  · simp [turn, hc]
  · have hsame : (first ^^^ ((first ^^^ c) &&& (Nat.pow 2 q - 1))) ^^^ (c ^^^ ((first ^^^ c) &&& (Nat.pow 2 q - 1))) =
        first ^^^ c := by
      rw [Nat.xor_comm c, Nat.xor_assoc, Nat.xor_xor_cancel_left]
    simp only [turn, hc, testBit_xor_low _ _ (Nat.le_refl q), if_false, Bool.false_eq_true, hsame,
      Nat.xor_xor_cancel_right]

private theorem turn_inj (h : turn q first c = turn q first' c') : first = first' ∧ c = c' := by
  have h₂ : (first, c) = (first', c') := by
    rw [← turn_turn q first c, h, turn_turn]
  exact Prod.mk.inj h₂

private theorem turnRest_inj (h : turnRest q first point = turnRest q first' point') :
    first = first' ∧ point = point' := by
  -- the last coordinate was turned last, so by induction the others tell what the first one was before them
  induction point generalizing first first' point' with
  | nil =>
    cases point' with
    | nil => exact ⟨congrArg Prod.fst h, rfl⟩
    | cons c' rest' => cases congrArg Prod.snd h
  | cons c rest ih =>
    cases point' with
    | nil => cases congrArg Prod.snd h
    | cons c' rest' =>
      simp only [turnRest, Prod.mk.injEq, List.cons.injEq] at h
      obtain ⟨hfirst, hc, hrest⟩ := h
      obtain ⟨hturned, rfl⟩ := ih (Prod.ext hfirst hrest)
      obtain ⟨rfl, rfl⟩ := turn_inj (Prod.ext hturned hc)
      exact ⟨rfl, rfl⟩

/-- What the first coordinate becomes when it is turned against itself. -/
private theorem turnFirst_inj
    (h : (if first.testBit q then first ^^^ (Nat.pow 2 q - 1) else first) =
      if first'.testBit q then first' ^^^ (Nat.pow 2 q - 1) else first') : first = first' := by
  have hkept : ∀ x : Nat, (x ^^^ (Nat.pow 2 q - 1)).testBit q = x.testBit q := by
    intro x
    rw [Nat.testBit_xor, Nat.pow_eq, Nat.testBit_two_pow_sub_one]
    simp
  by_cases hq : first.testBit q <;> by_cases hq' : first'.testBit q
  · rw [if_pos hq, if_pos hq'] at h
    exact Nat.xor_left_inj.1 h
  · rw [if_pos hq, if_neg hq'] at h
    exact absurd (h ▸ (hkept first).trans hq) hq'
  · rw [if_neg hq, if_pos hq'] at h
    exact absurd (h.symm ▸ (hkept first').trans hq') hq
  · rwa [if_neg hq, if_neg hq'] at h

private theorem turnAll_inj (h : turnAll q point = turnAll q point') : point = point' := by
  cases point with
  | nil =>
    cases point' with
    | nil => rfl
    | cons first' rest' => cases h
  | cons first rest =>
    cases point' with
    | nil => cases h
    | cons first' rest' =>
      simp only [turnAll, List.cons.injEq] at h
      obtain ⟨hfirst, rfl⟩ := turnRest_inj (Prod.ext h.1 h.2)
      rw [turnFirst_inj hfirst]

private theorem turnLevels_inj (h : turnLevels levels point = turnLevels levels point') : point = point' := by
  induction levels generalizing point point' with
  | zero => exact h
  | succ levels ih => exact turnAll_inj (ih h)

/-! ### Combining and flipping -/

theorem running_inj {acc : Nat} (h : running acc point = running acc point') : point = point' := by
  induction point generalizing acc point' with
  | nil =>
    cases point' with
    | nil => rfl
    | cons c' rest' => cases h
  | cons c rest ih =>
    cases point' with
    | nil => cases h
    | cons c' rest' =>
      obtain ⟨hfirst, hrest⟩ := List.cons.inj h
      obtain rfl := Nat.xor_right_inj.1 hfirst
      rw [ih hrest]

private theorem flips_xor (a b levels : Nat) : flips (a ^^^ b) levels = flips a levels ^^^ flips b levels := by
  induction levels with
  | zero => simp [flips]
  | succ q ih =>
    rw [flips, flips, flips, ih, Nat.testBit_xor]
    cases a.testBit (q + 1) <;> cases b.testBit (q + 1) <;> simp [Nat.xor_assoc, Nat.xor_left_comm]

/-- What is flipped is below the highest bit. -/
private theorem flips_lt {k : Nat} (h : c < 2 ^ (k + 1)) (levels : Nat) : flips c levels < 2 ^ k := by
  induction levels with
  | zero => exact Nat.two_pow_pos k
  | succ q ih =>
    refine Nat.xor_lt_two_pow ?_ ih
    split
    · next hq =>
      have hle : 2 ^ (q + 1) ≤ c := Nat.ge_two_pow_of_testBit hq
      have hlevel : q + 1 < k + 1 := (Nat.pow_lt_pow_iff_right (by decide)).1 (Nat.lt_of_le_of_lt hle h)
      have hpow : 2 ^ (q + 1) ≤ 2 ^ k := Nat.pow_le_pow_right Nat.two_pos (Nat.le_of_lt_succ hlevel)
      have hpos : 0 < 2 ^ (q + 1) := Nat.two_pow_pos _
      rw [Nat.pow_eq]
      omega
    · exact Nat.two_pow_pos k

theorem xor_flips_inj (h : c ^^^ flips c levels = c' ^^^ flips c' levels) : c = c' := by
  -- flipping is linear, and no number but zero is what it flips: that is below its own highest bit
  have hflips : c ^^^ c' = flips (c ^^^ c') levels := by
    rw [flips_xor, ← Nat.xor_eq_zero_iff]
    have hzero := Nat.xor_eq_zero_iff.2 h
    rwa [Nat.xor_assoc, Nat.xor_left_comm (flips c levels), ← Nat.xor_assoc] at hzero
  by_contra hne
  have hpos : c ^^^ c' ≠ 0 := fun hzero => hne (Nat.xor_eq_zero_iff.1 hzero)
  have hlow := flips_lt (Nat.lt_log2_self (n := c ^^^ c')) levels
  have hhigh := Nat.log2_self_le hpos
  rw [← hflips] at hlow
  omega

/-- The last coordinate of the transpose, which tells what was flipped in all of them. -/
private theorem getLastD_hilbertTranspose (point : List Nat) (bits : Nat) : ∃ last,
    hilbertTranspose point bits =
      (running 0 (turnLevels (bits - 1) point)).map (· ^^^ flips last (bits - 1)) ∧
    (hilbertTranspose point bits).getLastD 0 = last ^^^ flips last (bits - 1) := by
  refine ⟨(running 0 (turnLevels (bits - 1) point)).getLastD 0, rfl, ?_⟩
  have hzero : 0 ^^^ flips 0 (bits - 1) = 0 := by
    have hlow : flips 0 (bits - 1) < 2 ^ 0 := flips_lt (by decide) (bits - 1)
    simpa using hlow
  simp only [hilbertTranspose]
  generalize running 0 (turnLevels (bits - 1) point) = turned
  cases turned using List.reverseRecOn with
  | nil => exact hzero.symm
  | append_singleton init last => simp

private theorem hilbertTranspose_inj (h : hilbertTranspose point bits = hilbertTranspose point' bits) :
    point = point' := by
  obtain ⟨last, hpoint, hlast⟩ := getLastD_hilbertTranspose point bits
  obtain ⟨last', hpoint', hlast'⟩ := getLastD_hilbertTranspose point' bits
  have hsame : last = last' := xor_flips_inj (by rw [← hlast, ← hlast', h])
  subst hsame
  rw [hpoint, hpoint'] at h
  exact turnLevels_inj (running_inj (List.map_injective_iff.2 (fun _ _ => Nat.xor_left_inj.1) h))

/-! ### Bits that are used -/

/-- Whether all coordinates fit into the bits. -/
def Fits (bits : Nat) (point : List Nat) : Prop := ∀ c ∈ point, c < 2 ^ bits

theorem low_lt (h : q ≤ bits) : Nat.pow 2 q - 1 < 2 ^ bits := by
  have hpow : 2 ^ q ≤ 2 ^ bits := Nat.pow_le_pow_right Nat.two_pos h
  have hpos : 0 < 2 ^ q := Nat.two_pow_pos q
  rw [Nat.pow_eq]
  omega

private theorem turn_lt (hq : q ≤ bits) (hfirst : first < 2 ^ bits) (hc : c < 2 ^ bits) :
    (turn q first c).1 < 2 ^ bits ∧ (turn q first c).2 < 2 ^ bits := by
  have hlow := low_lt hq
  unfold turn
  split
  · exact ⟨Nat.xor_lt_two_pow hfirst hlow, hc⟩
  · have ht := Nat.and_lt_two_pow (first ^^^ c) hlow
    exact ⟨Nat.xor_lt_two_pow hfirst ht, Nat.xor_lt_two_pow hc ht⟩

private theorem fits_turnRest (hq : q ≤ bits) (hfirst : first < 2 ^ bits) (h : Fits bits point) :
    (turnRest q first point).1 < 2 ^ bits ∧ Fits bits (turnRest q first point).2 := by
  induction point generalizing first with
  | nil => exact ⟨hfirst, h⟩
  | cons c rest ih =>
    obtain ⟨hc, hrest⟩ := List.forall_mem_cons.1 h
    obtain ⟨hfirst, hc⟩ := turn_lt hq hfirst hc
    obtain ⟨hfirst, hrest⟩ := ih hfirst hrest
    exact ⟨hfirst, List.forall_mem_cons.2 ⟨hc, hrest⟩⟩

private theorem fits_turnAll (hq : q ≤ bits) (h : Fits bits point) : Fits bits (turnAll q point) := by
  cases point with
  | nil => exact h
  | cons first rest =>
    obtain ⟨hfirst, hrest⟩ := List.forall_mem_cons.1 h
    have hturned : (if first.testBit q then first ^^^ (Nat.pow 2 q - 1) else first) < 2 ^ bits := by
      split
      · exact Nat.xor_lt_two_pow hfirst (low_lt hq)
      · exact hfirst
    obtain ⟨hfirst, hrest⟩ := fits_turnRest hq hturned hrest
    exact List.forall_mem_cons.2 ⟨hfirst, hrest⟩

private theorem fits_turnLevels (hlevels : levels ≤ bits) (h : Fits bits point) :
    Fits bits (turnLevels levels point) := by
  induction levels generalizing point with
  | zero => exact h
  | succ levels ih => exact ih (by omega) (fits_turnAll hlevels h)

private theorem fits_running {acc : Nat} (hacc : acc < 2 ^ bits) (h : Fits bits point) :
    Fits bits (running acc point) := by
  induction point generalizing acc with
  | nil => exact h
  | cons c rest ih =>
    obtain ⟨hc, hrest⟩ := List.forall_mem_cons.1 h
    have hnext := Nat.xor_lt_two_pow hacc hc
    exact List.forall_mem_cons.2 ⟨hnext, ih hnext hrest⟩

theorem fits_hilbertTranspose (hbits : 1 ≤ bits) (h : Fits bits point) : Fits bits (hilbertTranspose point bits) := by
  obtain ⟨k, rfl⟩ := Nat.exists_eq_add_of_le' hbits
  have hturned := fits_running (Nat.two_pow_pos _) (fits_turnLevels (Nat.le_succ k) h)
  intro c hc
  obtain ⟨c, (hmem : c ∈ running 0 (turnLevels k point)), rfl⟩ := List.mem_map.1 hc
  refine Nat.xor_lt_two_pow (hturned c hmem) ?_
  -- the last coordinate fits as every other one
  have hlast : (running 0 (turnLevels k point)).getLastD 0 < 2 ^ (k + 1) := by
    rw [List.getLastD_eq_getLast?, List.getLast?_eq_some_getLast (List.ne_nil_of_mem hmem)]
    exact hturned _ (List.getLast_mem _)
  exact Nat.lt_of_lt_of_le (flips_lt hlast k) (Nat.pow_le_pow_right Nat.two_pos (Nat.le_succ k))

/-! ### Places -/

private theorem length_turnRest (q first : Nat) (point : List Nat) :
    (turnRest q first point).2.length = point.length := by
  induction point generalizing first with
  | nil => rfl
  | cons c rest ih => exact congrArg (· + 1) (ih _)

theorem length_turnLevels (levels : Nat) (point : List Nat) : (turnLevels levels point).length = point.length := by
  induction levels generalizing point with
  | zero => rfl
  | succ q ih =>
    rw [turnLevels, ih]
    cases point with
    | nil => rfl
    | cons first rest => exact congrArg (· + 1) (length_turnRest _ _ rest)

theorem length_running (acc : Nat) (point : List Nat) : (running acc point).length = point.length := by
  induction point generalizing acc with
  | nil => rfl
  | cons c rest ih => exact congrArg (· + 1) (ih _)

theorem length_hilbertTranspose (point : List Nat) (bits : Nat) :
    (hilbertTranspose point bits).length = point.length := by
  rw [hilbertTranspose, List.length_map, length_running, length_turnLevels]

theorem hilbertPlace_lt (point : List Nat) (bits : Nat) : hilbertPlace point bits < 2 ^ (bits * point.length) :=
  length_hilbertTranspose point bits ▸ zPlace_lt (hilbertTranspose point bits) bits

/-- Different points have different places. -/
theorem hilbertPlace_inj (hbits : 1 ≤ bits) (hlength : point.length = point'.length) (hpoint : Fits bits point)
    (hpoint' : Fits bits point') (h : hilbertPlace point bits = hilbertPlace point' bits) : point = point' := by
  have hfits := fits_hilbertTranspose hbits hpoint
  have hfits' := fits_hilbertTranspose hbits hpoint'
  refine hilbertTranspose_inj (zPlace_inj ?_ hfits hfits' h)
  rw [length_hilbertTranspose, length_hilbertTranspose, hlength]

private theorem exists_hilbertPlace {n : Nat} (hbits : 1 ≤ bits) {place : Nat} (hplace : place < 2 ^ (bits * n)) :
    ∃ point : List Nat, point.length = n ∧ Fits bits point ∧ hilbertPlace point bits = place := by
  -- as many places as points: what tells the points apart leaves no place out
  let position (coordinates : Fin n → Fin (2 ^ bits)) : Fin (2 ^ (bits * n)) :=
    ⟨hilbertPlace (List.ofFn fun i => (coordinates i : Nat)) bits, by
      simpa using hilbertPlace_lt (List.ofFn fun i => (coordinates i : Nat)) bits⟩
  have hfits : ∀ coordinates : Fin n → Fin (2 ^ bits), Fits bits (List.ofFn fun i => (coordinates i : Nat)) := by
    intro coordinates c hc
    obtain ⟨i, rfl⟩ := List.mem_ofFn.1 hc
    exact (coordinates i).isLt
  have hinj : Function.Injective position := by
    intro coordinates coordinates' h
    have hlist := hilbertPlace_inj hbits (by simp) (hfits coordinates) (hfits coordinates') (congrArg Fin.val h)
    exact funext fun i => Fin.ext (congrFun (List.ofFn_injective hlist) i)
  have hcard : Fintype.card (Fin n → Fin (2 ^ bits)) = Fintype.card (Fin (2 ^ (bits * n))) := by
    simp [pow_mul]
  have hbij := (Fintype.bijective_iff_injective_and_card position).2 ⟨hinj, hcard⟩
  obtain ⟨coordinates, hcoordinates⟩ := hbij.surjective ⟨place, hplace⟩
  exact ⟨_, List.length_ofFn, hfits coordinates, congrArg Fin.val hcoordinates⟩

/-! ### Whole coordinates -/

theorem cast_lowBits (bits : Nat) (c : Int) : (lowBits bits c : Int) = c % 2 ^ bits := by
  have hpos : (0 : Int) < (Nat.pow 2 bits : Nat) := by exact_mod_cast Nat.two_pow_pos bits
  rw [lowBits, Int.toNat_of_nonneg (Int.emod_nonneg c hpos.ne')]
  simp

theorem lowBits_lt (bits : Nat) (c : Int) : lowBits bits c < 2 ^ bits := by
  have hlt : c % 2 ^ bits < 2 ^ bits := Int.emod_lt_of_pos c (by exact_mod_cast Nat.two_pow_pos bits)
  rw [← cast_lowBits] at hlt
  exact_mod_cast hlt

private theorem lowBits_of_lt {c : Int} (h₀ : 0 ≤ c) (h : c < 2 ^ bits) : (lowBits bits c : Int) = c := by
  rw [cast_lowBits, Int.emod_eq_of_lt h₀ h]

private theorem hilbertPosition_of_two_le {point : List Int} (hbits : 1 ≤ bits) (hlength : 2 ≤ point.length) :
    hilbertPosition point bits = .ok (hilbertPlace (point.map (lowBits bits)) bits) := by
  have hsome : ¬ (bits : Int) ≤ 0 := by omega
  match point, hlength with
  | c :: d :: rest, _ => rw [hilbertPosition, if_neg hsome, if_neg (by simp), Int.toNat_natCast]; simp

/-- Whole coordinates that fit into the bits are their lowest bits. -/
private theorem map_lowBits {point : List Int} (h : ∀ c ∈ point, 0 ≤ c ∧ c < 2 ^ bits) :
    (point.map (lowBits bits)).map Int.ofNat = point := by
  rw [List.map_map]
  calc point.map (Int.ofNat ∘ lowBits bits) = point.map id :=
        List.map_congr_left fun c hc => lowBits_of_lt (h c hc).1 (h c hc).2
    _ = point := List.map_id point

/-- The points of a cube with `2^bits` points to an edge. -/
def grid (n bits : Nat) : Set (List Int) := {point | point.length = n ∧ ∀ c ∈ point, 0 ≤ c ∧ c < 2 ^ bits}

instance {n : Nat} {point : List Int} : Decidable (point ∈ grid n bits) :=
  inferInstanceAs (Decidable (point.length = n ∧ ∀ c ∈ point, 0 ≤ c ∧ c < 2 ^ bits))

theorem exists_coordinates {n : Nat} {point : List Int} (h : point ∈ grid n bits) :
    ∃ coordinates : List Nat, coordinates.length = n ∧ Fits bits coordinates ∧ coordinates.map Int.ofNat = point := by
  refine ⟨point.map (lowBits bits), by rw [List.length_map, h.1], ?_, map_lowBits h.2⟩
  intro c hc
  obtain ⟨c, -, rfl⟩ := List.mem_map.1 hc
  exact lowBits_lt bits c

theorem mem_grid_map_ofNat (h : Fits bits point) : point.map Int.ofNat ∈ grid point.length bits := by
  refine ⟨List.length_map _, List.forall_mem_map.2 fun c hc => ⟨Int.natCast_nonneg c, ?_⟩⟩
  simpa using Int.ofNat_lt.2 (h c hc)

theorem map_lowBits_ofNat (h : Fits bits point) : (point.map Int.ofNat).map (lowBits bits) = point :=
  List.map_injective_iff.2 (fun _ _ => Int.ofNat.inj) (map_lowBits (mem_grid_map_ofNat h).2)

/-- Off the line, the place of a point is that of its coordinates as natural numbers. -/
theorem hilbertPosition_map_ofNat (hbits : 1 ≤ bits) (hlength : 2 ≤ point.length) (h : Fits bits point) :
    hilbertPosition (point.map Int.ofNat) bits = .ok (hilbertPlace point bits) := by
  rw [hilbertPosition_of_two_le hbits (by rwa [List.length_map]), map_lowBits_ofNat h]

/-- On a line every point is its own place. -/
private theorem hilbertPosition_bijOn_line (bits : Nat) :
    Set.BijOn (fun point : List Int => hilbertPosition point bits)
      {point | point.length = 1 ∧ ∀ c ∈ point, 0 ≤ c ∧ c < 2 ^ bits}
      (Except.ok '' {place | 0 ≤ place ∧ place < 2 ^ bits}) := by
  refine ⟨?_, ?_, ?_⟩
  · rintro point ⟨hlength, hpoint⟩
    obtain ⟨c, rfl⟩ := List.length_eq_one_iff.1 hlength
    exact ⟨c, hpoint c List.mem_cons_self, rfl⟩
  · rintro point ⟨hlength, -⟩ point' ⟨hlength', -⟩ h
    obtain ⟨c, rfl⟩ := List.length_eq_one_iff.1 hlength
    obtain ⟨c', rfl⟩ := List.length_eq_one_iff.1 hlength'
    exact congrArg (fun c => [c]) (Except.ok.inj h)
  · rintro _ ⟨place, hplace, rfl⟩
    exact ⟨[place], ⟨rfl, List.forall_mem_singleton.2 hplace⟩, rfl⟩

theorem hilbertPosition_bijOn {n bits : Nat} (hn : 1 ≤ n) (hbits : 1 ≤ bits) :
    Set.BijOn (fun point : List Int => hilbertPosition point bits)
      {point | point.length = n ∧ ∀ c ∈ point, 0 ≤ c ∧ c < 2 ^ bits}
      (Except.ok '' {place | 0 ≤ place ∧ place < 2 ^ (n * bits)}) := by
  obtain rfl | htwo := Nat.eq_or_lt_of_le hn
  · rw [Nat.one_mul]
    exact hilbertPosition_bijOn_line bits
  have hfits : ∀ point : List Int, Fits bits (point.map (lowBits bits)) := by
    intro point c hc
    obtain ⟨c, -, rfl⟩ := List.mem_map.1 hc
    exact lowBits_lt bits c
  refine ⟨?_, ?_, ?_⟩
  · rintro point ⟨rfl, -⟩
    refine ⟨_, ⟨Int.natCast_nonneg _, ?_⟩, (hilbertPosition_of_two_le hbits htwo).symm⟩
    have hlt := hilbertPlace_lt (point.map (lowBits bits)) bits
    rw [List.length_map, Nat.mul_comm] at hlt
    exact_mod_cast hlt
  · rintro point ⟨hlength, hpoint⟩ point' ⟨hlength', hpoint'⟩ h
    have hplace : hilbertPosition point bits = hilbertPosition point' bits := h
    rw [hilbertPosition_of_two_le hbits (hlength ▸ htwo), hilbertPosition_of_two_le hbits (hlength' ▸ htwo)] at hplace
    have hlow : point.map (lowBits bits) = point'.map (lowBits bits) := by
      refine hilbertPlace_inj hbits ?_ (hfits point) (hfits point') (Int.ofNat.inj (Except.ok.inj hplace))
      rw [List.length_map, List.length_map, hlength, hlength']
    rw [← map_lowBits hpoint, hlow, map_lowBits hpoint']
  · rintro _ ⟨place, ⟨h₀, hlt⟩, rfl⟩
    lift place to Nat using h₀
    have hbelow : place < 2 ^ (bits * n) := by
      rw [Nat.mul_comm]
      exact_mod_cast hlt
    obtain ⟨point, hlength, hpoint, hplace⟩ := exists_hilbertPlace hbits hbelow
    have hgrid : ∀ c ∈ point.map Int.ofNat, 0 ≤ c ∧ c < 2 ^ bits := by
      intro c hc
      obtain ⟨c, hmem, rfl⟩ := List.mem_map.1 hc
      have hlt : (c : Int) < (2 ^ bits : Nat) := Int.ofNat_lt.2 (hpoint c hmem)
      exact ⟨Int.natCast_nonneg c, by simpa using hlt⟩
    have hlow : (point.map Int.ofNat).map (lowBits bits) = point :=
      List.map_injective_iff.2 (fun _ _ => Int.ofNat.inj) (map_lowBits hgrid)
    refine ⟨point.map Int.ofNat, ⟨by rw [List.length_map, hlength], hgrid⟩, ?_⟩
    show hilbertPosition (point.map Int.ofNat) bits = .ok place
    rw [hilbertPosition_of_two_le hbits (by rw [List.length_map, hlength]; exact htwo), hlow, hplace]

/-- The corners of a cube and the points between them, four to an edge. -/
theorem hilbertPosition_bijOn_cube : 1 ≤ 3 ∧ 1 ≤ 2 ∧
    Set.BijOn (fun point : List Int => hilbertPosition point (2 : Nat))
      {point | point.length = 3 ∧ ∀ c ∈ point, 0 ≤ c ∧ c < 2 ^ 2}
      (Except.ok '' {place | 0 ≤ place ∧ place < 2 ^ (3 * 2)}) ∧
    hilbertPosition [0, 0, 0] (2 : Nat) = .ok 0 ∧ hilbertPosition [3, 0, 0] (2 : Nat) = .ok 63 ∧
    hilbertPosition [1, 2, 3] (2 : Nat) = .ok 22 :=
  ⟨by decide, by decide, hilbertPosition_bijOn (by decide) (by decide), rfl, rfl, rfl⟩

end Compaction.Order
