import Compaction.Proofs.Order.Descent
import Mathlib.Data.Nat.Dist

/-!
# The Hilbert curve is continuous

Turning keeps distances within a cell (`distance_turnAll`), so there the curve makes unit steps if it does so in the
smaller cube. It begins at the origin and ends at the far corner on the first axis (`lower_of_end`). From one cell to
the next a single highest bit changes, and the ends of the two cells are neighbours (`distance_cells`). By induction on
the bits the curve makes unit steps only (`distance_of_succ`, `hilbertPosition_continuous`).
-/

namespace Compaction.Order

variable {point point' : List Nat} {k first first' c : Nat}

/-! ### Turning keeps distances -/

/-- Where a point lies within its cell. -/
def lower (k : Nat) (point : List Nat) : List Nat := point.map (· % 2 ^ k)

/-- The number of unit steps from one point to another. -/
def distance : List Nat → List Nat → Nat
  | c :: rest, d :: rest' => Nat.dist c d + distance rest rest'
  | _, _ => 0

private theorem distance_self (point : List Nat) : distance point point = 0 := by
  induction point with
  | nil => rfl
  | cons c rest ih => rw [distance, Nat.dist_self, ih]

private theorem distance_comm (point point' : List Nat) : distance point point' = distance point' point := by
  induction point generalizing point' with
  | nil => cases point' <;> rfl
  | cons c rest ih =>
    cases point' with
    | nil => rfl
    | cons c' rest' => rw [distance, distance, Nat.dist_comm, ih]

/-- Flipping all lower bits reflects the lower part. -/
private theorem xor_low_mod (k c : Nat) : (c ^^^ (Nat.pow 2 k - 1)) % 2 ^ k = 2 ^ k - 1 - c % 2 ^ k := by
  refine Nat.eq_of_testBit_eq fun i => ?_
  have hlt : c % 2 ^ k < 2 ^ k := Nat.mod_lt _ (Nat.two_pow_pos k)
  have hsub : 2 ^ k - 1 - c % 2 ^ k = 2 ^ k - (c % 2 ^ k + 1) := by omega
  rw [hsub, Nat.testBit_two_pow_sub_succ hlt, Nat.testBit_mod_two_pow, Nat.testBit_mod_two_pow, Nat.testBit_xor,
    Nat.pow_eq, Nat.testBit_two_pow_sub_one]
  by_cases hi : i < k <;> simp [hi]

private theorem turn_of_set (h : c.testBit k = true) (first : Nat) :
    (turn k first c).1 % 2 ^ k = 2 ^ k - 1 - first % 2 ^ k ∧ (turn k first c).2 = c := by
  simp only [turn, h, if_true, xor_low_mod, and_self]

private theorem turn_of_clear (h : c.testBit k = false) (first : Nat) :
    (turn k first c).1 % 2 ^ k = c % 2 ^ k ∧ (turn k first c).2 % 2 ^ k = first % 2 ^ k := by
  simp only [turn, h, Bool.false_eq_true, if_false, Nat.pow_eq, Nat.and_two_pow_sub_one_eq_mod, Nat.xor_mod_two_pow,
    Nat.mod_mod]
  exact ⟨Nat.xor_xor_cancel_left _ _, by rw [Nat.xor_comm, Nat.xor_xor_cancel_right]⟩

private theorem dist_reflect (k x y : Nat) :
    Nat.dist (2 ^ k - 1 - x % 2 ^ k) (2 ^ k - 1 - y % 2 ^ k) = Nat.dist (x % 2 ^ k) (y % 2 ^ k) := by
  have hx := Nat.mod_lt x (Nat.two_pow_pos k)
  have hy := Nat.mod_lt y (Nat.two_pow_pos k)
  simp only [Nat.dist]
  omega

/-- Two points lie in one cell if their highest bits are the same, coordinate by coordinate. -/
private theorem forall₂_of_upper_eq (h : upper k point = upper k point') :
    List.Forall₂ (fun c c' => c.testBit k = c'.testBit k) point point' := by
  rwa [upper, upper, ← List.forall₂_eq_eq_eq, List.forall₂_map_left_iff, List.forall₂_map_right_iff] at h

private theorem distance_turnRest (h : upper k point = upper k point') (first first' : Nat) :
    distance (lower k ((turnRest k first point).1 :: (turnRest k first point).2))
        (lower k ((turnRest k first' point').1 :: (turnRest k first' point').2)) =
      distance (lower k (first :: point)) (lower k (first' :: point')) := by
  induction forall₂_of_upper_eq h generalizing first first' with
  | nil => rfl
  | @cons c c' rest rest' hbit hrest ih =>
    have hsame := ih (List.cons.inj h).2 (turn k first c).1 (turn k first' c').1
    simp only [turnRest, lower, List.map_cons, distance] at hsame ⊢
    cases hc : c.testBit k with
    | true =>
      obtain ⟨hfirst, hsecond⟩ := turn_of_set hc first
      obtain ⟨hfirst', hsecond'⟩ := turn_of_set (hbit.symm.trans hc) first'
      rw [hfirst, hfirst', dist_reflect] at hsame
      rw [hsecond, hsecond']
      omega
    | false =>
      obtain ⟨hfirst, hsecond⟩ := turn_of_clear hc first
      obtain ⟨hfirst', hsecond'⟩ := turn_of_clear (hbit.symm.trans hc) first'
      rw [hfirst, hfirst'] at hsame
      rw [hsecond, hsecond']
      omega

/-- In one cell all points are turned the same way. -/
theorem distance_turnAll (h : upper k point = upper k point') :
    distance (lower k (turnAll k point)) (lower k (turnAll k point')) = distance (lower k point) (lower k point') := by
  cases forall₂_of_upper_eq h with
  | nil => rfl
  | @cons first first' rest rest' hbit =>
    rw [turnAll, turnAll, distance_turnRest (List.cons.inj h).2]
    simp only [lower, List.map_cons, distance]
    cases hc : first.testBit k with
    | true =>
      have hc' : first'.testBit k = true := hbit.symm.trans hc
      simp only [hc', if_true, xor_low_mod, dist_reflect]
    | false =>
      have hc' : first'.testBit k = false := hbit.symm.trans hc
      simp only [hc', Bool.false_eq_true, if_false]

private theorem mod_two_pow_succ (c k : Nat) : c % 2 ^ (k + 1) = (c.testBit k).toNat * 2 ^ k + c % 2 ^ k := by
  rw [Nat.mod_pow_succ, ← div_pow_mod_two, Nat.pow_eq]
  ring

/-- Within a cell only the lower parts differ. -/
private theorem distance_lower_succ (h : upper k point = upper k point') :
    distance (lower (k + 1) point) (lower (k + 1) point') = distance (lower k point) (lower k point') := by
  induction forall₂_of_upper_eq h with
  | nil => rfl
  | cons hbit _ ih =>
    have hsame := ih (List.cons.inj h).2
    simp only [lower, List.map_cons, distance] at hsame ⊢
    rw [hsame, mod_two_pow_succ, mod_two_pow_succ, hbit, Nat.dist_add_add_left]

/-! ### The ends of a cell -/

/-- The lower part of a coordinate at the near or at the far end of a cell. -/
def edge (k : Nat) (far : Bool) : Nat := if far then 2 ^ k - 1 else 0

private theorem eq_edge_not {far : Bool} (h : 2 ^ k - 1 - c % 2 ^ k = edge k far) : c % 2 ^ k = edge k (!far) := by
  have hlt : c % 2 ^ k < 2 ^ k := Nat.mod_lt _ (Nat.two_pow_pos k)
  cases far <;> simp only [edge, Bool.false_eq_true, Bool.not_false, Bool.not_true, if_true, if_false] at h ⊢ <;> omega

/-- Where a point lies that is turned to one of the corners on the first axis. -/
private theorem lower_of_turnRest {far : Bool}
    (hfirst : (turnRest k first point).1 % 2 ^ k = edge k far)
    (hrest : lower k (turnRest k first point).2 = List.replicate point.length 0) :
    first % 2 ^ k = edge k (carried far (upper k point)) ∧
      lower k point = (settled far (upper k point)).map (edge k) := by
  induction point generalizing first with
  | nil => exact ⟨hfirst, rfl⟩
  | cons c rest ih =>
    simp only [turnRest, lower, List.map_cons, List.length_cons, List.replicate_succ, List.cons.injEq] at hfirst hrest
    obtain ⟨hturned, hsettled⟩ := ih hfirst hrest.2
    have hc := hrest.1
    simp only [lower, upper, List.map_cons, carried, settled, List.cons.injEq] at hsettled hturned ⊢
    rw [hsettled]
    cases hbit : c.testBit k with
    | true =>
      rw [(turn_of_set hbit first).1] at hturned
      rw [(turn_of_set hbit first).2] at hc
      exact ⟨eq_edge_not hturned, hc, rfl⟩
    | false =>
      rw [(turn_of_clear hbit first).1] at hturned
      rw [(turn_of_clear hbit first).2] at hc
      exact ⟨hc, hturned, rfl⟩

/-- The end of a cell that is turned to a corner on the first axis. -/
def cellEnd (k : Nat) (far : Bool) : List Bool → List Nat
  | [] => []
  | b :: rest => (b.toNat * 2 ^ k + edge k (b ^^ carried far rest)) ::
      (rest.zip (settled far rest)).map fun c => c.1.toNat * 2 ^ k + edge k c.2

private theorem lower_eq_zip (k : Nat) (point : List Nat) :
    lower (k + 1) point = ((upper k point).zip (lower k point)).map fun c => c.1.toNat * 2 ^ k + c.2 := by
  rw [lower, upper, lower, List.zip_map', List.map_map]
  exact List.map_congr_left fun c _ => mod_two_pow_succ c k

private theorem lower_of_turnAll {far : Bool}
    (h : lower k (turnAll k (first :: point)) = edge k far :: List.replicate point.length 0) :
    lower (k + 1) (first :: point) = cellEnd k far (upper k (first :: point)) := by
  rw [turnAll] at h
  obtain ⟨hfirst, hrest⟩ := List.cons.inj h
  obtain ⟨hturned, hsettled⟩ := lower_of_turnRest hfirst hrest
  have hlow : first % 2 ^ k = edge k (first.testBit k ^^ carried far (upper k point)) := by
    cases hbit : first.testBit k with
    | true =>
      simp only [hbit, if_true, xor_low_mod] at hturned
      rw [eq_edge_not hturned, Bool.true_xor]
    | false =>
      simp only [hbit, Bool.false_eq_true, if_false] at hturned
      rw [hturned, Bool.false_xor]
  rw [lower_eq_zip]
  simp only [upper, lower, List.map_cons, List.zip_cons_cons, cellEnd] at hsettled hlow ⊢
  rw [hsettled, ← hlow, List.zip_map_right, List.map_map]
  rfl

/-- The highest point of one half and the lowest point of the other one are neighbours. -/
private theorem dist_edges (k : Nat) (b : Bool) :
    Nat.dist (b.toNat * 2 ^ k + edge k (!b)) ((!b).toNat * 2 ^ k + edge k b) = 1 := by
  have hpos := Nat.two_pow_pos k
  cases b <;> simp only [edge, Nat.dist, Bool.not_true, Bool.not_false, Bool.toNat_true, Bool.toNat_false,
    Bool.false_eq_true, if_true, if_false] <;> omega

private theorem distance_settled {far b : Bool} {front back : List Bool} (h : carried far back = true) :
    distance (((front ++ b :: back).zip (settled far (front ++ b :: back))).map
        fun c => c.1.toNat * 2 ^ k + edge k c.2)
      (((front ++ (!b) :: back).zip (settled far (front ++ (!b) :: back))).map
        fun c => c.1.toNat * 2 ^ k + edge k c.2) = 1 := by
  induction front with
  | nil =>
    simp only [List.nil_append, settled, h, Bool.and_true, Bool.not_not, List.zip_cons_cons, List.map_cons, distance,
      distance_self, dist_edges]
  | cons c front ih =>
    simp only [List.cons_append, settled, List.zip_cons_cons, List.map_cons, distance, carried_change front b h,
      Nat.dist_self, ih]

/-- Two cells that differ in one highest bit meet behind it, if their ends are turned to the same corner. -/
theorem distance_cells {far b : Bool} {front back : List Bool} (h : carried far back = true) :
    distance (cellEnd k far (front ++ b :: back)) (cellEnd k far (front ++ (!b) :: back)) = 1 := by
  cases front with
  | nil =>
    simp only [List.nil_append, cellEnd, h, Bool.xor_true, Bool.not_not, distance, distance_self, dist_edges]
  | cons c front =>
    simp only [List.cons_append, cellEnd, distance, carried_change front b h, Nat.dist_self, distance_settled h]

private theorem cellEnd_replicate (k : Nat) (b : Bool) (n : Nat) :
    cellEnd k false (b :: List.replicate n false) = edge (k + 1) b :: List.replicate n 0 := by
  have hpos := Nat.two_pow_pos k
  rw [cellEnd, carried_replicate, settled_replicate, Bool.xor_false]
  congr 1
  · cases b with
    | false => simp [edge]
    | true =>
      simp only [edge, Bool.toNat_true, if_true, Nat.pow_succ]
      omega
  · simp [edge]

/-! ### The ends of the curve -/

private theorem cells_of_max {a r m size : Nat} (h : a * size + r + 1 = m * size) (hr : r < size) (ha : a < m) :
    a + 1 = m ∧ r + 1 = size := by
  -- multiples of the size of a cell and rests below it, as all places are
  have hle : m * size ≤ (a + 1) * size := by
    rw [Nat.succ_mul]
    omega
  have hm : a + 1 = m := Nat.le_antisymm ha (Nat.le_of_mul_le_mul_right hle (by omega))
  rw [← hm, Nat.succ_mul] at h
  exact ⟨hm, by omega⟩

private theorem cells_of_succ {a r a' r' size : Nat} (h : a' * size + r' = a * size + r + 1) (hr : r < size)
    (hr' : r' < size) : a' = a ∧ r' = r + 1 ∨ a' = a + 1 ∧ r + 1 = size ∧ r' = 0 := by
  have hpos : 0 < size := by omega
  have hdiv : (a' * size + r') / size = a' := by
    rw [Nat.add_comm, Nat.add_mul_div_right _ _ hpos, Nat.div_eq_of_lt hr', Nat.zero_add]
  rcases Nat.lt_or_eq_of_le (Nat.succ_le_of_lt hr) with hlt | heq
  · have hsame : (a * size + (r + 1)) / size = a := by
      rw [Nat.add_comm, Nat.add_mul_div_right _ _ hpos, Nat.div_eq_of_lt hlt, Nat.zero_add]
    rw [h, Nat.add_assoc, hsame] at hdiv
    subst hdiv
    exact .inl ⟨rfl, by omega⟩
  · have hnext : a * size + r + 1 = (a + 1) * size := by
      rw [Nat.succ_mul]
      omega
    rw [h, hnext, Nat.mul_div_cancel _ hpos] at hdiv
    subst hdiv
    exact .inr ⟨rfl, heq, by omega⟩

private theorem upper_of_cellOf {n : Nat} {b : Bool} (hn : point.length = n + 1)
    (h : cellOf k point = if b then 2 ^ (n + 1) - 1 else 0) : upper k point = b :: List.replicate n false := by
  have hpos := Nat.two_pow_pos (n + 1)
  have hlength : (upper k point).length = (b :: List.replicate n false).length := by
    rw [length_upper, hn, List.length_cons, List.length_replicate]
  have hcell : cellOf k point = cellNumber false (b :: List.replicate n false) 0 := by
    cases b with
    | false =>
      have hzero := cellNumber_replicate false (n + 1) 0
      rw [List.replicate_succ] at hzero
      simpa [h] using hzero.symm
    | true =>
      have hlast := cellNumber_lastCell false (n + 1) 0
      rw [lastCell] at hlast
      simp only [Bool.not_false, Bool.toNat_true, Nat.zero_add, Nat.one_mul] at hlast
      rw [h, if_pos rfl]
      omega
  exact (cellNumber_inj hlength hcell).2

/-- Both ends of the curve are near ends of the curve through a smaller cube. -/
private theorem cell_of_end {n : Nat} {far : Bool} (hn : point.length = n + 1)
    (h : hilbertPlace point (k + 1) = if far then 2 ^ ((k + 1) * point.length) - 1 else 0) :
    cellOf k point = (if far then 2 ^ (n + 1) - 1 else 0) ∧ hilbertPlace (turnAll k point) k = 0 := by
  have hlow := placeInCell_lt k point
  have hcell := cellOf_lt k point
  have hpos := Nat.two_pow_pos (k * point.length)
  rw [hilbertPlace_succ (List.ne_nil_of_length_eq_add_one hn)] at h
  cases far with
  | false =>
    obtain ⟨hcells, hplace⟩ := Nat.add_eq_zero_iff.1 h
    have hzero : cellOf k point = 0 := by
      rcases Nat.mul_eq_zero.1 hcells with hzero | hzero
      · exact hzero
      · omega
    refine ⟨hzero, ?_⟩
    rwa [placeInCell, hzero, if_neg (by decide)] at hplace
  | true =>
    rw [if_pos rfl, Nat.succ_mul, Nat.add_comm (k * _), Nat.pow_add] at h
    have hsize : 0 < 2 ^ point.length * 2 ^ (k * point.length) := Nat.mul_pos (Nat.two_pow_pos _) hpos
    obtain ⟨hlast, hplace⟩ := cells_of_max (m := 2 ^ point.length) (by omega) hlow hcell
    rw [hn, Nat.pow_succ] at hlast
    have hodd : cellOf k point % 2 = 1 := by omega
    have hlt := hilbertPlace_turnAll_lt k point
    rw [placeInCell, if_pos hodd] at hplace
    exact ⟨by rw [if_pos rfl, Nat.pow_succ]; omega, by omega⟩

/-- The curve begins at the origin and ends at the far corner on the first axis. -/
theorem lower_of_end {n : Nat} {far : Bool} (hn : point.length = n + 1)
    (h : hilbertPlace point k = if far then 2 ^ (k * point.length) - 1 else 0) :
    lower k point = edge k far :: List.replicate n 0 := by
  induction k generalizing point far with
  | zero =>
    have hzero : lower 0 point = List.replicate (n + 1) 0 := by
      rw [lower, ← hn, ← List.map_const']
      exact List.map_congr_left fun c _ => by rw [Nat.pow_zero, Nat.mod_one]
    rw [hzero, List.replicate_succ]
    cases far <;> rfl
  | succ k ih =>
    obtain ⟨hcell, hplace⟩ := cell_of_end hn h
    match point, hn with
    | first :: rest, hn =>
      obtain rfl : rest.length = n := Nat.succ.inj hn
      have hend := @ih (turnAll k (first :: rest)) false (by rw [length_turnAll]; rfl) hplace
      rw [lower_of_turnAll hend, upper_of_cellOf rfl hcell, cellEnd_replicate]

private theorem lower_of_cell_end (hne : point ≠ []) {far : Bool}
    (h : hilbertPlace (turnAll k point) k = if far then 2 ^ (k * point.length) - 1 else 0) :
    lower (k + 1) point = cellEnd k far (upper k point) := by
  match point, hne with
  | first :: rest, _ =>
    have hlength : (turnAll k (first :: rest)).length = rest.length + 1 := length_turnAll k (first :: rest)
    rw [← length_turnAll k (first :: rest)] at h
    exact lower_of_turnAll (lower_of_end hlength h)

/-! ### Unit steps -/

/-- Where one cell ends and the next one begins: from an even cell the curve passes to the next one at the far ends of
both, from an odd one at the near ends. -/
private theorem place_of_border (hcell : cellOf k point' = cellOf k point + 1)
    (hlast : placeInCell k point + 1 = 2 ^ (k * point.length)) (hfirst : placeInCell k point' = 0) :
    (hilbertPlace (turnAll k point) k =
      if decide (cellOf k point % 2 = 0) then 2 ^ (k * point.length) - 1 else 0) ∧
    (hilbertPlace (turnAll k point') k =
      if decide (cellOf k point % 2 = 0) then 2 ^ (k * point'.length) - 1 else 0) := by
  have hlt := hilbertPlace_turnAll_lt k point
  have hlt' := hilbertPlace_turnAll_lt k point'
  rw [placeInCell] at hlast hfirst
  by_cases heven : cellOf k point % 2 = 0
  · rw [if_neg (by omega)] at hlast
    rw [if_pos (by omega)] at hfirst
    rw [decide_eq_true heven, if_pos rfl, if_pos rfl]
    omega
  · rw [if_pos (by omega)] at hlast
    rw [if_neg (by omega)] at hfirst
    rw [decide_eq_false heven]
    simp only [Bool.false_eq_true, if_false]
    omega

/-- Within a cell unit steps are unit steps in the smaller cube, forwards or backwards. -/
private theorem place_of_same_cell (hcell : cellOf k point' = cellOf k point)
    (hstep : placeInCell k point' = placeInCell k point + 1) (hlength : point.length = point'.length) :
    hilbertPlace (turnAll k point') k = hilbertPlace (turnAll k point) k + 1 ∨
      hilbertPlace (turnAll k point) k = hilbertPlace (turnAll k point') k + 1 := by
  have hlt := hilbertPlace_turnAll_lt k point
  have hlt' := hilbertPlace_turnAll_lt k point'
  rw [placeInCell, placeInCell, hcell, hlength] at hstep
  rw [hlength] at hlt
  split at hstep
  · right
    omega
  · exact .inl hstep

theorem distance_of_succ (hlength : point.length = point'.length) (hne : point ≠ [])
    (h : hilbertPlace point' k = hilbertPlace point k + 1) : distance (lower k point) (lower k point') = 1 := by
  induction k generalizing point point' with
  | zero => cases h
  | succ k ih =>
    have hne' : point' ≠ [] := by
      rintro rfl
      exact hne (List.length_eq_zero_iff.1 hlength)
    have hupper : (upper k point).length = (upper k point').length := by rw [length_upper, length_upper, hlength]
    have hlow' := placeInCell_lt k point'
    rw [hilbertPlace_succ hne, hilbertPlace_succ hne', ← hlength] at h
    rw [← hlength] at hlow'
    rcases cells_of_succ h (placeInCell_lt k point) hlow' with ⟨hcell, hstep⟩ | ⟨hcell, hlast, hfirst⟩
    · obtain ⟨-, hsame⟩ := cellNumber_inj hupper hcell.symm
      have hlengths : (turnAll k point).length = (turnAll k point').length := by
        rw [length_turnAll, length_turnAll, hlength]
      rw [distance_lower_succ hsame, ← distance_turnAll hsame]
      rcases place_of_same_cell hcell hstep hlength with hforth | hback
      · exact ih hlengths (turnAll_ne_nil hne) hforth
      · rw [distance_comm]
        exact ih hlengths.symm (turnAll_ne_nil hne') hback
    · obtain ⟨front, b, back, hbits, hbits', hcarried⟩ := exists_changed hupper hcell
      obtain ⟨hplace, hplace'⟩ := place_of_border hcell hlast hfirst
      rw [lower_of_cell_end hne hplace, lower_of_cell_end hne' hplace', hbits, hbits']
      exact distance_cells hcarried

/-! ### Neighbours -/

private theorem eq_of_distance_eq_zero (hlength : point.length = point'.length) (h : distance point point' = 0) :
    point = point' := by
  induction point generalizing point' with
  | nil => exact (List.length_eq_zero_iff.1 hlength.symm).symm
  | cons c rest ih =>
    match point', hlength with
    | c' :: rest', hlength =>
      rw [distance] at h
      obtain ⟨hc, hrest⟩ := Nat.add_eq_zero_iff.1 h
      rw [Nat.eq_of_dist_eq_zero hc, ih (Nat.succ.inj hlength) hrest]

/-- A single unit step changes one coordinate by one. -/
private theorem exists_step (hlength : point.length = point'.length) (h : distance point point' = 1) :
    ∃ front c c' back, point = front ++ c :: back ∧ point' = front ++ c' :: back ∧ (c' = c + 1 ∨ c = c' + 1) := by
  induction point generalizing point' with
  | nil =>
    obtain rfl := List.length_eq_zero_iff.1 hlength.symm
    cases h
  | cons c rest ih =>
    match point', hlength with
    | c' :: rest', hlength =>
      have hrest : rest.length = rest'.length := Nat.succ.inj hlength
      rw [distance] at h
      rcases Nat.eq_zero_or_pos (Nat.dist c c') with hc | hc
      · obtain ⟨front, d, d', back, rfl, rfl, hstep⟩ := ih hrest (by omega)
        obtain rfl := Nat.eq_of_dist_eq_zero hc
        exact ⟨c :: front, d, d', back, rfl, rfl, hstep⟩
      · obtain rfl := eq_of_distance_eq_zero hrest (by omega)
        have hone : Nat.dist c c' = 1 := by omega
        refine ⟨[], c, c', rest, rfl, rfl, ?_⟩
        rw [Nat.dist] at hone
        omega

private theorem lower_of_fits (h : Fits k point) : lower k point = point :=
  (List.map_congr_left fun c hc => Nat.mod_eq_of_lt (h c hc)).trans (List.map_id point)

theorem hilbertPosition_continuous {n bits : Nat} (hn : 1 ≤ n) (hbits : 1 ≤ bits) {point next : List Int}
    (hpoint : point ∈ grid n bits) (hnext : next ∈ grid n bits) {place : Int}
    (h : hilbertPosition point bits = .ok place) (h' : hilbertPosition next bits = .ok (place + 1)) :
    ∃ front c d back, point = front ++ c :: back ∧ next = front ++ d :: back ∧ (d - c).natAbs = 1 := by
  obtain rfl | htwo := Nat.eq_or_lt_of_le hn
  · -- on a line the places are the coordinates
    obtain ⟨c, rfl⟩ := List.length_eq_one_iff.1 hpoint.1
    obtain ⟨d, rfl⟩ := List.length_eq_one_iff.1 hnext.1
    have hc : c = place := Except.ok.inj h
    have hd : d = place + 1 := Except.ok.inj h'
    exact ⟨[], c, d, [], rfl, rfl, by omega⟩
  · obtain ⟨coordinates, rfl, hfits, rfl⟩ := exists_coordinates hpoint
    obtain ⟨coordinates', hlength, hfits', rfl⟩ := exists_coordinates hnext
    rw [hilbertPosition_map_ofNat hbits htwo hfits] at h
    rw [hilbertPosition_map_ofNat hbits (hlength ▸ htwo) hfits', ← Except.ok.inj h] at h'
    have hsucc : hilbertPlace coordinates' bits = hilbertPlace coordinates bits + 1 := Int.ofNat.inj (Except.ok.inj h')
    have hdistance := distance_of_succ hlength.symm (List.ne_nil_of_length_pos (by omega)) hsucc
    rw [lower_of_fits hfits, lower_of_fits hfits'] at hdistance
    obtain ⟨front, c, d, back, rfl, rfl, hstep⟩ := exists_step hlength.symm hdistance
    refine ⟨front.map Int.ofNat, c, d, back.map Int.ofNat, List.map_append, List.map_append, ?_⟩
    omega

/-- Half of the way through a cube of 64 points the curve passes from one half of the cube to the other. -/
theorem hilbertPosition_continuous_cube : 1 ≤ 3 ∧ 1 ≤ 2 ∧ hilbertPosition [1, 2, 0] (2 : Nat) = .ok 31 ∧
    hilbertPosition [2, 2, 0] (2 : Nat) = .ok (31 + 1) ∧
    ∃ front c d back, [1, 2, 0] = front ++ c :: back ∧ [2, 2, 0] = front ++ d :: back ∧ (d - c : Int).natAbs = 1 := by
  refine ⟨by decide, by decide, rfl, rfl, ?_⟩
  exact @hilbertPosition_continuous 3 2 (by decide) (by decide) _ _ (by decide) (by decide) 31 rfl rfl

end Compaction.Order
