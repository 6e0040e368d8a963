import Compaction.Filter.Basic

/-!
# Filters as text

A filter in the form that it is read from, and the groups that this form can hold.
-/

namespace Compaction.Filter

def pairText (p : String × String) : List Char := p.1.toList ++ ('=' :: p.2.toList)

/-- The pairs of each group between commas, the groups between semicolons. -/
def text (f : Filter) : List Char :=
  Text.joinWith [';'] (f.groups.map fun g => Text.joinWith [','] (g.map pairText))

/-- A text without blank space at its ends and without a separator. -/
def IsValue (s : String) : Prop :=
  Text.trim s.toList = s.toList ∧ ∀ c ∈ s.toList, isPairEnd c = false ∧ isGroupEnd c = false

instance : DecidablePred IsValue := fun s =>
  decidable_of_iff (Text.trim s.toList = s.toList ∧ s.toList.all fun c => !isPairEnd c && !isGroupEnd c)
    (by simp [IsValue])

/-- A value that is not empty and holds no `=`. -/
def IsColumn (s : String) : Prop := s.toList ≠ [] ∧ IsValue s ∧ '=' ∉ s.toList

instance : DecidablePred IsColumn := fun s =>
  inferInstanceAs (Decidable (s.toList ≠ [] ∧ IsValue s ∧ '=' ∉ s.toList))

/-- No group is empty, and every pair has a column and a value. -/
def WellFormed (f : Filter) : Prop :=
  f.groups ≠ [] ∧ ∀ g ∈ f.groups, g ≠ [] ∧ ∀ p ∈ g, IsColumn p.1 ∧ IsValue p.2

instance : DecidablePred WellFormed := fun f =>
  inferInstanceAs (Decidable (f.groups ≠ [] ∧ ∀ g ∈ f.groups, g ≠ [] ∧ ∀ p ∈ g, IsColumn p.1 ∧ IsValue p.2))

end Compaction.Filter
