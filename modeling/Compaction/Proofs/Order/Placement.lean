import Compaction.Proofs.Order.Deinterleaving
import Compaction.Proofs.Order.Nesting
import Compaction.Proofs.Order.Ranking

/-!
# Rows on a curve

The ranks of a row's values are a point (`coordinates`), which tells how the row compares in each column (`Ranked`).
Along a curve the dense ranks are points of a cube that holds them all, and the rows are sorted by the places of these
points (`exists_placed`, `Placed.exists_sortRows`). No two points of the cube have the same place
(`curvePosition_inj`), so rows have the same place only if they are equal in all the columns (`Placed.place_eq_iff`).
Values that are no keys have no ranks, and then there is no curve (`sortRows_eq_badType`).
-/

namespace Compaction.Order

variable {rows : List Row} {columns : List String} {strategy : Strategy} {rank : String → Value → Nat} {r s : Row}

/-! ### Rows and their ranks -/

/-- Whether two rows are equal in all the columns. -/
def EqualIn (columns : List String) (r s : Row) : Prop :=
  ∀ c ∈ columns, (r.get c).relationNullsFirst (s.get c) = .same

instance : DecidableRel (EqualIn columns) := fun r s =>
  inferInstanceAs (Decidable (∀ c ∈ columns, (r.get c).relationNullsFirst (s.get c) = .same))

/-- Whether all values in the columns are keys. -/
def Keyed (columns : List String) (rows : List Row) : Prop := ∀ c ∈ columns, ∀ r ∈ rows, (r.get c).key?.isSome

instance : Decidable (Keyed columns rows) :=
  inferInstanceAs (Decidable (∀ c ∈ columns, ∀ r ∈ rows, (r.get c).key?.isSome))

/-- Whether the values of each column compare by their ranks. -/
def Ranked (rank : String → Value → Nat) (columns : List String) (rows : List Row) : Prop :=
  ∀ c ∈ columns, ComparesBy Value.relationNullsFirst (rank c) (rows.map (·.get c))

/-- The ranks of a row's values. -/
def coordinates (rank : String → Value → Nat) (columns : List String) (r : Row) : List Nat :=
  columns.map fun c => rank c (r.get c)

namespace Ranked

theorem compares (h : Ranked rank columns rows) (hr : r ∈ rows) (hs : s ∈ rows) {c : String} (hc : c ∈ columns) :
    (r.get c).relationNullsFirst (s.get c) = .before ∧ rank c (r.get c) < rank c (s.get c) ∨
    (r.get c).relationNullsFirst (s.get c) = .same ∧ rank c (r.get c) = rank c (s.get c) ∨
    (r.get c).relationNullsFirst (s.get c) = .after ∧ rank c (s.get c) < rank c (r.get c) :=
  h c hc _ (List.mem_map_of_mem hr) _ (List.mem_map_of_mem hs)

theorem rank_eq_iff (h : Ranked rank columns rows) (hr : r ∈ rows) (hs : s ∈ rows) {c : String} (hc : c ∈ columns) :
    rank c (r.get c) = rank c (s.get c) ↔ (r.get c).relationNullsFirst (s.get c) = .same :=
  ((h c hc).same_iff (List.mem_map_of_mem hr) (List.mem_map_of_mem hs)).symm

theorem coordinates_eq_iff (h : Ranked rank columns rows) (hr : r ∈ rows) (hs : s ∈ rows) :
    coordinates rank columns r = coordinates rank columns s ↔ EqualIn columns r s := by
  rw [coordinates, coordinates, List.map_inj_left]
  exact forall₂_congr fun c hc => h.rank_eq_iff hr hs hc

end Ranked

/-- The dense ranks of columns that are ordered totally. -/
theorem exists_columnRanks (hordered : ∀ c ∈ columns, TotallyOrdered (rows.map (·.get c)))
    (hkeyed : Keyed columns rows) :
    ∃ rank, Ranked rank columns rows ∧ columns.mapM (fun c => ranks (rows.map (·.get c))) =
      .ok (columns.map fun c => rows.map fun r => rank c (r.get c)) := by
  have hranks : ∀ c ∈ columns, ∃ rank : Value → Nat, ranks (rows.map (·.get c)) = .ok ((rows.map (·.get c)).map rank) ∧
      ComparesBy Value.relationNullsFirst rank (rows.map (·.get c)) := fun c hc =>
    exists_ranks (hordered c hc) (List.forall_mem_map.2 (hkeyed c hc))
  choose! rank hrank hcompares using hranks
  refine ⟨rank, hcompares, ?_⟩
  rw [Except.mapM_eq_ok, List.forall₂_map_right_iff, List.forall₂_same]
  intro c hc
  rw [hrank c hc, List.map_map]
  rfl

/-! ### Places on a curve -/

/-- The places of the rows on a curve. -/
def curveKeys (strategy : Strategy) (columns : List String) (rows : List Row) : Except Fault (List Int) := do
  let columnRanks ← columns.mapM fun c => ranks (rows.map (·.get c))
  (points columnRanks rows.length).mapM fun p => curvePosition strategy p (bitsFor (largest columnRanks))

/-- Rows are sorted along a curve by their places on it. -/
theorem sortByCurve_eq (strategy : Strategy) (columns : List String) (rows : List Row) :
    sortByCurve strategy columns rows = (do
      let keys ← curveKeys strategy columns rows
      return (sorted (fun x y => x.1 < y.1) (keys.zip rows)).map Prod.snd) := by
  rw [curveKeys, bind_assoc]
  rfl

theorem sortRows_eq_sortByCurve (hcurve : strategy = .zorder ∨ strategy = .hilbert) (hcolumns : columns ≠ []) :
    sortRows rows strategy columns = sortByCurve strategy columns rows := by
  have hnonempty : ¬ columns.isEmpty := by simpa using hcolumns
  rcases hcurve with rfl | rfl <;> rw [sortRows, if_neg hnonempty]

private theorem le_largest {columnRanks : List (List Nat)} {rs : List Nat} {n : Nat} (hrs : rs ∈ columnRanks)
    (hn : n ∈ rs) : n ≤ largest columnRanks := by
  have hfold : ∀ (ns : List Nat) (m : Nat), m ≤ ns.foldl max m ∧ ∀ n ∈ ns, n ≤ ns.foldl max m := by
    intro ns
    induction ns with
    | nil => simp
    | cons n rest ih =>
      intro m
      obtain ⟨hmax, hrest⟩ := ih (max m n)
      exact ⟨(le_max_left m n).trans hmax, List.forall_mem_cons.2 ⟨(le_max_right m n).trans hmax, hrest⟩⟩
  exact (hfold _ 0).2 n (List.mem_flatten.2 ⟨rs, hrs, hn⟩)

private theorem lt_pow_bitsFor (n : Nat) : n < 2 ^ bitsFor n := by
  unfold bitsFor
  split
  · omega
  · exact Nat.lt_log2_self

/-- The bits for the largest rank of all columns hold every rank. -/
theorem lt_pow_bits_largest {columnRanks : List (List Nat)} {rs : List Nat} {n : Nat} (hrs : rs ∈ columnRanks)
    (hn : n ∈ rs) : n < 2 ^ bitsFor (largest columnRanks) :=
  lt_of_le_of_lt (le_largest hrs hn) (lt_pow_bitsFor _)

private theorem points_ranks (rank : String → Value → Nat) (columns : List String) (rows : List Row) :
    points (columns.map fun c => rows.map fun r => rank c (r.get c)) rows.length =
      rows.map fun r => (coordinates rank columns r).map Int.ofNat := by
  refine List.ext_getElem (by simp [points]) fun i hi hi' => ?_
  have hrow : i < rows.length := by simpa using hi'
  simp [points, coordinates, hrow]

theorem sorted_map {α β : Type} (before : β → β → Bool) (g : α → β) (xs : List α) :
    sorted before (xs.map g) = (sorted (fun x y => before (g x) (g y)) xs).map g := by
  have hinsert : ∀ x ys, insertSorted before (g x) (ys.map g) =
      (insertSorted (fun x y => before (g x) (g y)) x ys).map g := by
    intro x ys
    induction ys with
    | nil => rfl
    | cons y rest ih =>
      rw [List.map_cons, insertSorted, insertSorted, ih]
      split <;> rfl
  induction xs with
  | nil => rfl
  | cons x rest ih => rw [List.map_cons, sorted, sorted, ih, hinsert]

theorem zip_map_self {α β : Type} (g : α → β) (xs : List α) : (xs.map g).zip xs = xs.map fun x => (g x, x) := by
  calc (xs.map g).zip xs = (xs.map g).zip (xs.map id) := by rw [List.map_id]
    _ = xs.map fun x => (g x, x) := List.zip_map'

/-- How rows are placed on a curve: their ranks are points of a cube, and each row has the place of its point. -/
structure Placed (strategy : Strategy) (columns : List String) (rows : List Row) (rank : String → Value → Nat)
    (bits : Nat) (place : Row → Int) : Prop where
  ranked : Ranked rank columns rows
  bits_pos : 1 ≤ bits
  fits : ∀ r ∈ rows, Fits bits (coordinates rank columns r)
  position : ∀ r ∈ rows, curvePosition strategy ((coordinates rank columns r).map Int.ofNat) bits = .ok (place r)
  keys : curveKeys strategy columns rows = .ok (rows.map place)

/-- Ranks of the columns place the rows. -/
theorem placed_of_ranks {bits : Nat} {place : Row → Int} (hranked : Ranked rank columns rows)
    (hranks : columns.mapM (fun c => ranks (rows.map (·.get c))) =
      .ok (columns.map fun c => rows.map fun r => rank c (r.get c)))
    (hbits : bitsFor (largest (columns.map fun c => rows.map fun r => rank c (r.get c))) = bits)
    (hplace : ∀ r, curvePosition strategy ((coordinates rank columns r).map Int.ofNat) bits = .ok (place r)) :
    Placed strategy columns rows rank bits place := by
  have hfits : ∀ r ∈ rows, Fits bits (coordinates rank columns r) := by
    intro r hr d hd
    obtain ⟨c, hc, rfl⟩ := List.mem_map.1 hd
    rw [← hbits]
    exact lt_pow_bits_largest (List.mem_map_of_mem hc) (List.mem_map_of_mem hr)
  refine ⟨hranked, hbits ▸ bitsFor_pos _, hfits, fun r _ => hplace r, ?_⟩
  rw [curveKeys, hranks]
  show (points _ rows.length).mapM _ = _
  rw [points_ranks, hbits, Except.mapM_eq_ok, List.forall₂_map_left_iff, List.forall₂_map_right_iff,
    List.forall₂_same]
  exact fun r _ => hplace r

theorem exists_place (hcurve : strategy = .zorder ∨ strategy = .hilbert) (hcolumns : columns ≠ [])
    (rank : String → Value → Nat) (n : Nat) : ∃ place : Row → Int, ∀ r,
      curvePosition strategy ((coordinates rank columns r).map Int.ofNat) (bitsFor n) = .ok (place r) := by
  have hposition : ∀ r, ∃ place,
      curvePosition strategy ((coordinates rank columns r).map Int.ofNat) (bitsFor n) = .ok place := fun r =>
    exists_curvePosition hcurve (by simpa [coordinates] using hcolumns) (by exact_mod_cast bitsFor_pos n)
  choose place hplace using hposition
  exact ⟨place, hplace⟩

theorem exists_placed (hcurve : strategy = .zorder ∨ strategy = .hilbert) (hcolumns : columns ≠ [])
    (hordered : ∀ c ∈ columns, TotallyOrdered (rows.map (·.get c))) (hkeyed : Keyed columns rows) :
    ∃ rank bits place, Placed strategy columns rows rank bits place := by
  obtain ⟨rank, hranked, hranks⟩ := exists_columnRanks hordered hkeyed
  obtain ⟨place, hplace⟩ := exists_place hcurve hcolumns rank
    (largest (columns.map fun c => rows.map fun r => rank c (r.get c)))
  exact ⟨rank, _, place, placed_of_ranks hranked hranks rfl hplace⟩

theorem curvePosition_inj (hcurve : strategy = .zorder ∨ strategy = .hilbert) {bits : Nat} {point point' : List Nat}
    (hpoint : point ≠ []) (hlength : point.length = point'.length) (hbits : 1 ≤ bits) (hfits : Fits bits point)
    (hfits' : Fits bits point')
    (h : curvePosition strategy (point.map Int.ofNat) bits = curvePosition strategy (point'.map Int.ofNat) bits) :
    point = point' := by
  rcases hcurve with rfl | rfl
  · rw [curvePosition, curvePosition, zPosition_map_ofNat hfits, zPosition_map_ofNat hfits'] at h
    exact zPlace_inj hlength hfits hfits' (Int.ofNat.inj (Except.ok.inj h))
  · have hgrid := mem_grid_map_ofNat hfits
    have hgrid' := mem_grid_map_ofNat hfits'
    rw [← hlength] at hgrid'
    have hsame := hilbertPosition_inj (List.length_pos_iff.2 hpoint) hbits hgrid hgrid' h
    exact List.map_injective_iff.2 (fun _ _ => Int.ofNat.inj) hsame

namespace Placed

variable {bits : Nat} {place : Row → Int}

/-- Rows have the same place only if they are equal in all the columns. -/
theorem place_eq_iff (h : Placed strategy columns rows rank bits place)
    (hcurve : strategy = .zorder ∨ strategy = .hilbert) (hcolumns : columns ≠ []) (hr : r ∈ rows) (hs : s ∈ rows) :
    place r = place s ↔ EqualIn columns r s := by
  rw [← h.ranked.coordinates_eq_iff hr hs]
  constructor
  · intro hplace
    refine curvePosition_inj hcurve ?_ ?_ h.bits_pos (h.fits r hr) (h.fits s hs) ?_
    · simpa [coordinates] using hcolumns
    · rw [coordinates, coordinates, List.length_map, List.length_map]
    · rw [h.position r hr, h.position s hs, hplace]
  · intro hpoint
    have hposition := h.position r hr
    rw [hpoint, h.position s hs] at hposition
    exact (Except.ok.inj hposition).symm

theorem exists_sortRows (h : Placed strategy columns rows rank bits place)
    (hcurve : strategy = .zorder ∨ strategy = .hilbert) (hcolumns : columns ≠ []) :
    ∃ inOrder, sortRows rows strategy columns = .ok inOrder ∧ SortedBy place rows inOrder := by
  refine ⟨_, ?_, sortedBy_sorted place rows⟩
  rw [sortRows_eq_sortByCurve hcurve hcolumns, sortByCurve_eq, h.keys]
  show Except.ok _ = _
  rw [zip_map_self, sorted_map, List.map_map]
  exact congrArg Except.ok (List.map_id _)

end Placed

/-- There is no curve through columns of values that are no keys. -/
theorem sortRows_eq_badType (hcurve : strategy = .zorder ∨ strategy = .hilbert) (hcolumns : columns ≠ [])
    (hkeyed : ¬ Keyed columns rows) : sortRows rows strategy columns = .error (.bare .badType) := by
  rw [sortRows_eq_sortByCurve hcurve hcolumns]
  cases hsort : sortByCurve strategy columns rows with
  | ok inOrder =>
    refine absurd (fun c hc r hr => ?_) hkeyed
    obtain ⟨columnRanks, hranks, -⟩ := Except.bind_eq_ok.1 hsort
    obtain ⟨rs, hrs⟩ := Except.exists_mapM_eq_ok.1 ⟨columnRanks, hranks⟩ c hc
    exact isSome_key_of_ranks hrs (List.mem_map_of_mem hr)
  | error f =>
    obtain ⟨c, -, hranks⟩ := sortByCurve_eq_error hcurve hcolumns hsort
    rw [(ranks_eq_error hranks).1]

end Compaction.Order
