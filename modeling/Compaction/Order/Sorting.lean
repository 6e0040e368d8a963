import Compaction.Value.Compare

/-!
# Sorting

Stable insertion sort, and sorting by a relation that may refuse to compare or leave two elements without an order.
The latter begins with the run at the start of the list and inserts the other elements by halving, which decides which
two elements are compared.

* `sorted_perm` — sorting permutes;
* `sortBy?_perm` — so does sorting by a relation, where it succeeds.
-/

namespace Compaction.Order

/-- Puts an element before the first one that it is before. -/
def insertSorted {α : Type} (before : α → α → Bool) (x : α) : List α → List α
  | [] => [x]
  | y :: rest => if before y x then y :: insertSorted before x rest else x :: y :: rest

/-- Equal elements keep their order: each one is put before those that came after it. -/
def sorted {α : Type} (before : α → α → Bool) : List α → List α
  | [] => []
  | x :: rest => insertSorted before x (sorted before rest)

/-- Whether an element comes before another; none if the two are not comparable. -/
def isBefore? {α : Type} (rel : α → α → Relation) (x y : α) : Option Bool :=
  match rel x y with
  | .refused => none
  | r => some (r = .before)

/-- The elements that follow the one ahead of them without a break, and the rest. -/
def takeRun? {α : Type} (follows : α → α → Option Bool) : α → List α → Option (List α × List α)
  | _, [] => some ([], [])
  | ahead, x :: rest => do
    if ← follows ahead x then
      let (run, rest) ← takeRun? follows x rest
      return (x :: run, rest)
    else return ([], x :: rest)

/-- The run at the start of a list and the rest: elements of which none comes before the one ahead of it, or elements
of which each does, which are turned around. -/
def leadingRun? {α : Type} (rel : α → α → Relation) : List α → Option (List α × List α)
  | x :: y :: rest => do
    if ← isBefore? rel y x then
      let (run, rest) ← takeRun? (fun ahead z => isBefore? rel z ahead) y rest
      return ((x :: y :: run).reverse, rest)
    else
      let (run, rest) ← takeRun? (fun ahead z => (isBefore? rel z ahead).map (!·)) y rest
      return (x :: y :: run, rest)
  | short => some (short, [])

/-- Puts an element into a sorted list: it is compared with the middle element and then put into one of the halves. -/
def insertHalving? {α : Type} (rel : α → α → Relation) (x : α) (ys : List α) : Option (List α) :=
  match _h : ys.drop (ys.length / 2) with
  | [] => some [x]
  | y :: right => do
    if ← isBefore? rel x y then return (← insertHalving? rel x (ys.take (ys.length / 2))) ++ y :: right
    else return ys.take (ys.length / 2) ++ y :: (← insertHalving? rel x right)
termination_by ys.length
decreasing_by
  all_goals
    have := congrArg List.length _h
    simp at this ⊢
    omega

/-- The elements in order; none if two of those that are compared refuse to be. -/
def sortBy? {α : Type} (rel : α → α → Relation) (xs : List α) : Option (List α) := do
  let (run, rest) ← leadingRun? rel xs
  rest.foldlM (fun ys x => insertHalving? rel x ys) run

private theorem insertSorted_perm {α : Type} (before : α → α → Bool) (x : α) (ys : List α) :
    (insertSorted before x ys).Perm (x :: ys) := by
  induction ys with
  | nil => exact .refl _
  | cons y rest ih =>
    simp only [insertSorted]
    split
    · exact (ih.cons y).trans (.swap x y rest)
    · exact .refl _

theorem sorted_perm {α : Type} (before : α → α → Bool) (xs : List α) : (sorted before xs).Perm xs := by
  induction xs with
  | nil => exact .refl _
  | cons x rest ih => exact (insertSorted_perm before x _).trans (ih.cons x)

private theorem takeRun?_append {α : Type} {follows : α → α → Option Bool} {ahead : α} {xs run rest : List α}
    (h : takeRun? follows ahead xs = some (run, rest)) : run ++ rest = xs := by
  induction xs generalizing ahead run rest with
  | nil => simp_all [takeRun?]
  | cons x xs ih =>
    rw [takeRun?] at h
    cases hf : follows ahead x with
    | none => simp [hf] at h
    | some b =>
      cases b with
      | false =>
        simp only [hf, Option.bind_eq_bind, Option.bind_some] at h
        cases h
        rfl
      | true =>
        cases ht : takeRun? follows x xs with
        | none => simp [hf, ht] at h
        | some p =>
          simp only [hf, ht, Option.bind_eq_bind, Option.bind_some] at h
          cases h
          simp [ih ht]

theorem leadingRun?_perm {α : Type} {rel : α → α → Relation} {xs run rest : List α}
    (h : leadingRun? rel xs = some (run, rest)) : (run ++ rest).Perm xs := by
  match xs, h with
  | [], h => cases h; exact .refl _
  | [x], h => cases h; exact .refl _
  | x :: y :: zs, h =>
    rw [leadingRun?] at h
    cases hb : isBefore? rel y x with
    | none => simp [hb] at h
    | some b =>
      cases b with
      | false =>
        cases ht : takeRun? (fun ahead z => (isBefore? rel z ahead).map (!·)) y zs with
        | none => simp [hb, ht] at h
        | some p =>
          simp only [hb, ht, Option.bind_eq_bind, Option.bind_some] at h
          cases h
          simp [takeRun?_append ht]
      | true =>
        cases ht : takeRun? (fun ahead z => isBefore? rel z ahead) y zs with
        | none => simp [hb, ht] at h
        | some p =>
          simp only [hb, ht, Option.bind_eq_bind, Option.bind_some] at h
          cases h
          rw [← takeRun?_append ht]
          exact (List.reverse_perm _).append_right _

theorem insertHalving?_perm {α : Type} {rel : α → α → Relation} {x : α} {ys zs : List α}
    (h : insertHalving? rel x ys = some zs) : zs.Perm (x :: ys) := by
  fun_induction insertHalving? rel x ys generalizing zs with
  | case1 ys hd =>
    have := congrArg List.length hd
    have : ys = [] := by
      cases ys with
      | nil => rfl
      | cons y ys => simp at this; omega
    subst this
    cases h
    exact .refl _
  | case2 ys y right hd ihl ihr =>
    have hys : ys = ys.take (ys.length / 2) ++ y :: right := by rw [← hd, List.take_append_drop]
    generalize ys.take (ys.length / 2) = left at h ihl hys
    rw [hys]
    cases hb : isBefore? rel x y with
    | none => simp [hb] at h
    | some b =>
      cases b with
      | false =>
        obtain ⟨r, hr, rfl⟩ : ∃ r, insertHalving? rel x right = some r ∧ left ++ y :: r = zs := by
          simpa [hb, Option.bind_eq_some_iff] using h
        exact (((ihr hr).cons y).trans (.swap x y right)).append_left left |>.trans List.perm_middle
      | true =>
        obtain ⟨l, hl, rfl⟩ : ∃ l, insertHalving? rel x left = some l ∧ l ++ y :: right = zs := by
          simpa [hb, Option.bind_eq_some_iff] using h
        exact (ihl hl).append_right (y :: right)

private theorem foldlM_insertHalving?_perm {α : Type} {rel : α → α → Relation} {rest ys zs : List α}
    (h : rest.foldlM (fun ys x => insertHalving? rel x ys) ys = some zs) : zs.Perm (ys ++ rest) := by
  induction rest generalizing ys with
  | nil => cases h; simp
  | cons x rest ih =>
    obtain ⟨ws, hx, hr⟩ : ∃ ws, insertHalving? rel x ys = some ws ∧
        rest.foldlM (fun ys x => insertHalving? rel x ys) ws = some zs := by
      simpa [List.foldlM_cons, Option.bind_eq_some_iff] using h
    exact (ih hr).trans (((insertHalving?_perm hx).append_right rest).trans List.perm_middle.symm)

theorem sortBy?_perm {α : Type} {rel : α → α → Relation} {xs ys : List α} (h : sortBy? rel xs = some ys) :
    ys.Perm xs := by
  obtain ⟨⟨run, rest⟩, hr, hf⟩ := Option.bind_eq_some_iff.1 h
  exact (foldlM_insertHalving?_perm hf).trans (leadingRun?_perm hr)

end Compaction.Order
