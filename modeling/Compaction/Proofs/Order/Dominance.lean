import Compaction.Proofs.Order.Placement
import Compaction.Proofs.Order.Rows

/-!
# Dominated rows

The place of a point on the Z-order curve does not fall when a coordinate grows (`zPlace_le`): the first column of bits
that changes becomes a larger number, whatever happens below it. So a row that is nowhere larger than another one and
smaller somewhere comes before it (`sortRows_dominated`).
-/

namespace Compaction.Order

variable {rows : List Row} {columns : List String} {rank : String → Value → Nat} {r s : Row}
  {point point' : List Nat} {bits : Nat}

/-! ### Columns of bits -/

/-- Of the lowest bits of two numbers the highest decides, and where it is the same those below it do. -/
private theorem bit_le_of_mod_le {c d : Nat} (h : c % 2 ^ (bits + 1) ≤ d % 2 ^ (bits + 1)) :
    c / 2 ^ bits % 2 ≤ d / 2 ^ bits % 2 ∧ (c / 2 ^ bits % 2 = d / 2 ^ bits % 2 → c % 2 ^ bits ≤ d % 2 ^ bits) := by
  rw [Nat.mod_pow_succ, Nat.mod_pow_succ] at h
  have hlow := Nat.mod_lt d (Nat.two_pow_pos bits)
  rcases Nat.mod_two_eq_zero_or_one (c / 2 ^ bits) with hc | hc <;>
    rcases Nat.mod_two_eq_zero_or_one (d / 2 ^ bits) with hd | hd <;> rw [hc, hd] at h ⊢ <;> omega

private theorem bitColumn_le (h : List.Forall₂ (fun c d => c / 2 ^ bits % 2 ≤ d / 2 ^ bits % 2) point point')
    {z z' : Nat} (hz : z ≤ z') : bitColumn bits point z ≤ bitColumn bits point' z' := by
  induction h generalizing z z' with
  | nil => exact hz
  | cons hbit _ ih => exact ih (Nat.add_le_add (Nat.mul_le_mul_left 2 hz) hbit)

private theorem bitColumn_inj (hlength : point.length = point'.length) {z z' : Nat}
    (h : bitColumn bits point z = bitColumn bits point' z') :
    z = z' ∧ List.Forall₂ (fun c d => c / 2 ^ bits % 2 = d / 2 ^ bits % 2) point point' := by
  induction point generalizing point' z z' with
  | nil =>
    obtain rfl := List.length_eq_zero_iff.1 hlength.symm
    exact ⟨h, .nil⟩
  | cons c rest ih =>
    match point', hlength with
    | d :: rest', hlength =>
      obtain ⟨hfirst, hrest⟩ := ih (Nat.succ.inj hlength) h
      simp only [Nat.pow_eq] at hfirst
      exact ⟨by omega, .cons (by omega) hrest⟩

/-! ### Places -/

theorem zPlace_le (h : List.Forall₂ (fun c d => c % 2 ^ bits ≤ d % 2 ^ bits) point point') :
    zPlace point bits ≤ zPlace point' bits := by
  induction bits with
  | zero => exact le_rfl
  | succ bits ih =>
    have hhigh : List.Forall₂ (fun c d => c / 2 ^ bits % 2 ≤ d / 2 ^ bits % 2) point point' :=
      h.imp fun _ _ hcd => (bit_le_of_mod_le hcd).1
    rw [zPlace_succ, zPlace_succ, h.length_eq]
    rcases Nat.lt_or_eq_of_le (bitColumn_le hhigh (Nat.le_refl 0)) with hlt | heq
    · -- what is lower does not reach the column that changes
      have hlow := h.length_eq ▸ zPlace_lt point bits
      calc bitColumn bits point 0 * 2 ^ (bits * point'.length) + zPlace point bits
          ≤ (bitColumn bits point 0 + 1) * 2 ^ (bits * point'.length) := by
            rw [Nat.succ_mul]
            exact Nat.add_le_add_left hlow.le _
        _ ≤ bitColumn bits point' 0 * 2 ^ (bits * point'.length) := Nat.mul_le_mul_right _ hlt
        _ ≤ _ := Nat.le_add_right _ _
    · obtain ⟨-, hsame⟩ := bitColumn_inj h.length_eq heq
      have hlow : List.Forall₂ (fun c d => c % 2 ^ bits ≤ d % 2 ^ bits) point point' :=
        hsame.mp (fun _ _ hbit hcd => (bit_le_of_mod_le hcd).2 hbit) h
      rw [heq]
      exact Nat.add_le_add_left (ih hlow) _

/-- Of two points that fit into the bits the one that is nowhere larger comes first. -/
private theorem zPlace_lt_of_le (hpoint : Fits bits point) (hpoint' : Fits bits point')
    (hle : List.Forall₂ (· ≤ ·) point point') (hne : point ≠ point') : zPlace point bits < zPlace point' bits := by
  have hmod : List.Forall₂ (fun c d => c % 2 ^ bits ≤ d % 2 ^ bits) point point' := by
    rw [List.forall₂_iff_get] at hle ⊢
    refine ⟨hle.1, fun i hi hi' => ?_⟩
    rw [Nat.mod_eq_of_lt (hpoint _ (List.get_mem _ _)), Nat.mod_eq_of_lt (hpoint' _ (List.get_mem _ _))]
    exact hle.2 i hi hi'
  exact lt_of_le_of_ne (zPlace_le hmod) fun h => hne (zPlace_inj hle.length_eq hpoint hpoint' h)

/-! ### Rows -/

/-- Whether a row is at most another one in all the columns, and smaller in one of them. -/
def DominatedIn (columns : List String) (r s : Row) : Prop :=
  (∀ c ∈ columns, (r.get c).relationNullsFirst (s.get c) = .before ∨
    (r.get c).relationNullsFirst (s.get c) = .same) ∧
  ∃ c ∈ columns, (r.get c).relationNullsFirst (s.get c) = .before

instance : Decidable (DominatedIn columns r s) :=
  inferInstanceAs (Decidable ((∀ c ∈ columns, _ ∨ _) ∧ ∃ c ∈ columns, _))

private theorem Ranked.coordinates_le (h : Ranked rank columns rows) (hr : r ∈ rows) (hs : s ∈ rows)
    (hdominated : DominatedIn columns r s) :
    List.Forall₂ (· ≤ ·) (coordinates rank columns r) (coordinates rank columns s) := by
  rw [coordinates, coordinates, List.forall₂_map_left_iff, List.forall₂_map_right_iff, List.forall₂_same]
  intro c hc
  rcases h.compares hr hs hc with ⟨-, hlt⟩ | ⟨-, heq⟩ | ⟨hrel, -⟩
  · exact hlt.le
  · exact heq.le
  · rcases hdominated.1 c hc with hbefore | hsame
    · rw [hrel] at hbefore
      cases hbefore
    · rw [hrel] at hsame
      cases hsame

private theorem Placed.place_lt {place : Row → Int} (h : Placed .zorder columns rows rank bits place) (hr : r ∈ rows)
    (hs : s ∈ rows) (hdominated : DominatedIn columns r s) : place r < place s := by
  have hplace : ∀ r ∈ rows, place r = zPlace (coordinates rank columns r) bits := by
    intro r hr
    have hposition := h.position r hr
    rw [curvePosition, zPosition_map_ofNat (h.fits r hr)] at hposition
    exact (Except.ok.inj hposition).symm
  have hne : coordinates rank columns r ≠ coordinates rank columns s := by
    rw [Ne, h.ranked.coordinates_eq_iff hr hs]
    intro hequal
    obtain ⟨c, hc, hbefore⟩ := hdominated.2
    rw [hequal c hc] at hbefore
    cases hbefore
  rw [hplace r hr, hplace s hs, Int.ofNat_lt]
  exact zPlace_lt_of_le (h.fits r hr) (h.fits s hs) (h.ranked.coordinates_le hr hs hdominated) hne

theorem sortRows_dominated (hordered : ∀ c ∈ columns, TotallyOrdered (rows.map (·.get c))) (hr : r ∈ rows)
    (hs : s ∈ rows) (hdominated : DominatedIn columns r s) :
    (Keyed columns rows →
      ∃ inOrder, sortRows rows .zorder columns = .ok inOrder ∧ inOrder.Perm rows ∧
        ∀ i j : Nat, inOrder[i]? = some r → inOrder[j]? = some s → i < j) ∧
    (¬ Keyed columns rows → sortRows rows .zorder columns = .error (.bare .badType)) := by
  have hcolumns : columns ≠ [] := by
    obtain ⟨c, hc, -⟩ := hdominated.2
    exact List.ne_nil_of_mem hc
  constructor
  · intro hkeyed
    obtain ⟨rank, bits, place, hplaced⟩ := exists_placed (.inl rfl) hcolumns hordered hkeyed
    obtain ⟨inOrder, hsort, hsorted⟩ := hplaced.exists_sortRows (.inl rfl) hcolumns
    refine ⟨inOrder, hsort, sortRows_perm hsort, fun i j hi hj => ?_⟩
    have hlt := hplaced.place_lt hr hs hdominated
    obtain ⟨hilt, rfl⟩ := List.getElem?_eq_some_iff.1 hi
    obtain ⟨hjlt, rfl⟩ := List.getElem?_eq_some_iff.1 hj
    by_contra hij
    rcases Nat.lt_or_eq_of_le (Nat.le_of_not_lt hij) with hji | rfl
    · exact absurd (List.pairwise_iff_getElem.1 hsorted.ordered j i hjlt hilt hji) (not_le.2 hlt)
    · exact absurd hlt (lt_irrefl _)
  · exact sortRows_eq_badType (.inl rfl) hcolumns

/-- Of two lists the smaller one dominates, but lists have no ranks by which it could come first. -/
theorem sortRows_dominated_of_lists :
    (∀ c ∈ ["v"],
      TotallyOrdered ([[("v", .list [.text "b"])], [("v", .list [.text "a"])]].map fun r : Row => r.get c)) ∧
    DominatedIn ["v"] [("v", .list [.text "a"])] [("v", .list [.text "b"])] ∧
    sortRows [[("v", .list [.text "b"])], [("v", .list [.text "a"])]] .zorder ["v"] = .error (.bare .badType) := by
  have hordered : ∀ c ∈ ["v"],
      TotallyOrdered ([[("v", .list [.text "b"])], [("v", .list [.text "a"])]].map fun r : Row => r.get c) := by decide
  have hdominated : DominatedIn ["v"] [("v", .list [.text "a"])] [("v", .list [.text "b"])] := by decide
  exact ⟨hordered, hdominated, (sortRows_dominated hordered (by simp) (by simp) hdominated).2 (by decide)⟩

end Compaction.Order
