import Compaction.Proofs.Filter.Reading
import Mathlib.Data.List.Basic

/-!
# Conditions

A condition can be taken apart again without knowing the filter: a column ends at the first `=`, a value ends at the
first quote that is not one of two, and what follows a value tells whether its group goes on. What is taken apart is
the filter itself (`ofCondition?_condition`), so filters that are read from text have the same condition only if they
have the same groups (`condition_unambiguous`).
-/

namespace Compaction.Filter

/-! ### Taking a condition apart -/

/-- A value whose opening quote is passed, and the text after its closing quote. Two quotes stand for one. -/
def takeUnquoted? : List Char → Option (List Char × List Char)
  | '\'' :: '\'' :: rest => (takeUnquoted? rest).map fun found => ('\'' :: found.1, found.2)
  | '\'' :: rest => some ([], rest)
  | c :: rest => (takeUnquoted? rest).map fun found => (c :: found.1, found.2)
  | [] => none

/-- A column up to the first `=`, a value between quotes, and the text after it. -/
def takePair? (s : List Char) : Option ((String × String) × List Char) :=
  match Text.cutAt '=' s with
  | (column, some ('\'' :: rest)) =>
    (takeUnquoted? rest).map fun found => ((String.ofList column, String.ofList found.1), found.2)
  | _ => none

/-- One or more items, at most `bound`, with `sep` between them, and the text after the last one. -/
def takeJoined? {α : Type} (take? : List Char → Option (α × List Char)) (sep : List Char) :
    Nat → List Char → Option (List α × List Char)
  | 0, _ => none
  | bound + 1, s => (take? s).bind fun found =>
    match sep.isPrefixOf? found.2 with
    | none => some ([found.1], found.2)
    | some rest => (takeJoined? take? sep bound rest).map fun others => (found.1 :: others.1, others.2)

/-- The pairs between two parentheses, and the text after the closing one. -/
def takeGroup? : List Char → Option (List (String × String) × List Char)
  | '(' :: s => match takeJoined? takePair? [' ', 'A', 'N', 'D', ' '] s.length s with
    | some (g, ')' :: rest) => some (g, rest)
    | _ => none
  | _ => none

/-- The filter of a condition. -/
def ofCondition? (s : List Char) : Option Filter :=
  match takeJoined? takeGroup? [' ', 'O', 'R', ' '] s.length s with
  | some (groups, []) => some ⟨groups⟩
  | _ => none

variable {s rest : List Char} {p : String × String} {g : List (String × String)} {f : Filter}

/-! ### Pairs -/

/-- A value stays in its quotes, whatever it holds, as long as no quote follows the closing one. -/
private theorem takeUnquoted?_append (s : List Char) (h : rest.head? ≠ some '\'') :
    takeUnquoted? (s.flatMap (fun c => if c = '\'' then ['\'', '\''] else [c]) ++ '\'' :: rest) = some (s, rest) := by
  induction s with
  | nil =>
    cases rest with
    | nil => rfl
    | cons c rest =>
      have hc : c ≠ '\'' := by simpa using h
      simp [takeUnquoted?, hc]
  | cons c s ih =>
    by_cases hc : c = '\''
    · simp [hc, takeUnquoted?, ih]
    · simp [hc, takeUnquoted?, ih]

private theorem takePair?_append (hcolumn : '=' ∉ p.1.toList) (h : rest.head? ≠ some '\'') :
    takePair? (pairCondition p ++ rest) = some (p, rest) := by
  have hcut : Text.cutAt '=' (pairCondition p ++ rest) = (p.1.toList, some (quotedValue p.2.toList ++ rest)) := by
    rw [pairCondition, List.append_assoc, List.cons_append]
    exact Text.cutAt_append hcolumn _
  have hvalue := takeUnquoted?_append p.2.toList h
  rw [takePair?, hcut]
  simp [quotedValue, hvalue]

/-! ### Items and what stands between them -/

/-- Items that can be told from what follows them are found again between their separators. -/
private theorem takeJoined?_joinWith {α : Type} {take? : List Char → Option (α × List Char)} {shown : α → List Char}
    (sep : List Char) (Follows : List Char → Prop) {xs : List α} {bound : Nat}
    (htake : ∀ x ∈ xs, ∀ rest, Follows rest → take? (shown x ++ rest) = some (x, rest))
    (hsep : ∀ rest, Follows (sep ++ rest)) (hrest : Follows rest) (hend : sep.isPrefixOf? rest = none)
    (hne : xs ≠ []) (hbound : xs.length ≤ bound) :
    takeJoined? take? sep bound (Text.joinWith sep (xs.map shown) ++ rest) = some (xs, rest) := by
  induction xs generalizing bound with
  | nil => exact absurd rfl hne
  | cons x others ih =>
    rw [List.forall_mem_cons] at htake
    obtain ⟨bound, rfl⟩ := Nat.exists_eq_add_of_le' (Nat.le_trans (by simp) hbound : 1 ≤ bound)
    rw [takeJoined?]
    cases others with
    | nil =>
      have hx := htake.1 rest hrest
      simp [Text.joinWith, hx, hend]
    | cons y others =>
      have hnext := ih htake.2 (by simp) (by simpa using hbound)
      have hx := htake.1 (sep ++ (Text.joinWith sep ((y :: others).map shown) ++ rest)) (hsep _)
      have hpassed : sep.isPrefixOf? (sep ++ (Text.joinWith sep ((y :: others).map shown) ++ rest)) =
          some (Text.joinWith sep ((y :: others).map shown) ++ rest) :=
        List.isPrefixOf?_eq_some_iff_append_eq.2 rfl
      rw [List.map_cons, List.map_cons, Text.joinWith_cons_cons, List.append_assoc, List.append_assoc, ← List.map_cons,
        hx, Option.bind_some]
      simp only [hpassed, hnext, Option.map_some]

private theorem length_le_joinWith (sep : List Char) {ps : List (List Char)} (h : ∀ p ∈ ps, p ≠ []) :
    ps.length ≤ (Text.joinWith sep ps).length := by
  induction ps with
  | nil => exact Nat.zero_le _
  | cons p rest ih =>
    rw [List.forall_mem_cons] at h
    have hp : 0 < p.length := List.length_pos_of_ne_nil h.1
    have hrest := ih h.2
    cases rest with
    | nil => exact hp
    | cons q rest =>
      rw [Text.joinWith_cons_cons, List.length_append, List.length_append]
      simp only [List.length_cons] at hrest ⊢
      omega

/-! ### Groups and filters -/

private theorem takeGroup?_append (hne : g ≠ []) (hg : ∀ p ∈ g, '=' ∉ p.1.toList) (rest : List Char) :
    takeGroup? (groupCondition g ++ rest) = some (g, rest) := by
  have hlength : g.length ≤ (Text.joinWith [' ', 'A', 'N', 'D', ' '] (g.map pairCondition) ++ ')' :: rest).length := by
    have hshown : ∀ p ∈ g.map pairCondition, p ≠ [] := List.forall_mem_map.2 fun p _ => by simp [pairCondition]
    have hjoined := length_le_joinWith [' ', 'A', 'N', 'D', ' '] hshown
    rw [List.length_map] at hjoined
    rw [List.length_append]
    omega
  have hpair : ∀ p ∈ g, ∀ rest, rest.head? ≠ some '\'' → takePair? (pairCondition p ++ rest) = some (p, rest) :=
    fun p hp rest => takePair?_append (hg p hp)
  have hpairs := takeJoined?_joinWith [' ', 'A', 'N', 'D', ' '] (fun rest => rest.head? ≠ some '\'') hpair (by simp)
    (by simp : (')' :: rest).head? ≠ some '\'') rfl hne hlength
  rw [groupCondition, List.cons_append, List.append_assoc, List.singleton_append, takeGroup?, hpairs]
  rfl

theorem ofCondition?_condition (hf : f.WellFormed) : ofCondition? f.condition = some f := by
  obtain ⟨hne, hgroups⟩ := hf
  have hlength : f.groups.length ≤ f.condition.length := by
    have hshown : ∀ p ∈ f.groups.map groupCondition, p ≠ [] := List.forall_mem_map.2 fun g _ => List.cons_ne_nil _ _
    have hjoined := length_le_joinWith [' ', 'O', 'R', ' '] hshown
    rwa [List.length_map] at hjoined
  have hgroup : ∀ g ∈ f.groups, ∀ rest, True → takeGroup? (groupCondition g ++ rest) = some (g, rest) :=
    fun g hg rest _ => takeGroup?_append (hgroups g hg).1 (fun p hp => ((hgroups g hg).2 p hp).1.2.2) rest
  have hend : [' ', 'O', 'R', ' '].isPrefixOf? ([] : List Char) = none := rfl
  have htaken : takeJoined? takeGroup? [' ', 'O', 'R', ' '] f.condition.length f.condition = some (f.groups, []) := by
    have happended := takeJoined?_joinWith _ (fun _ => True) hgroup (fun _ => trivial) trivial hend hne hlength
    rwa [List.append_nil] at happended
  rw [ofCondition?, htaken]

/-- The condition of a filter that is read from text can be taken apart into its columns and values, so no other filter
has it. -/
theorem condition_unambiguous {s t : String} {f g : Filter} (hf : read s = .ok (some f))
    (hg : read t = .ok (some g)) :
    ofCondition? f.condition = some f ∧ (f.condition = g.condition → f.groups = g.groups) := by
  have hleft := ofCondition?_condition (wellFormed_of_read hf)
  have hright := ofCondition?_condition (wellFormed_of_read hg)
  refine ⟨hleft, fun h => ?_⟩
  rw [h, hright] at hleft
  cases hleft
  rfl

/-- A value that holds the text of a whole further group is still one value. -/
theorem condition_unambiguous_of_quotes :
    let f : Filter := ⟨[[("k", "v') OR (l='w")]]⟩
    let g : Filter := ⟨[[("k", "v")], [("l", "w")]]⟩
    read "k=v') OR (l='w" = .ok (some f) ∧ read "k=v;l=w" = .ok (some g) ∧
      ofCondition? f.condition = some f ∧ f.condition ≠ g.condition := by
  intro f g
  have hf : read "k=v') OR (l='w" = .ok (some f) := by rfl
  have hg : read "k=v;l=w" = .ok (some g) := by rfl
  have hboth := condition_unambiguous hf hg
  exact ⟨hf, hg, hboth.1, fun h => absurd (hboth.2 h) (by decide)⟩

/-- Columns are shown as they are, so they may hold quotes and parentheses of their own. -/
example : (⟨[[("a')", "b'")]]⟩ : Filter).condition = "(a')='b''')".toList := by decide

end Compaction.Filter
