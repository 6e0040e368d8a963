/-!
# Totals

The sum of a list of natural numbers.

* `total_append` — the total of two lists is the sum of their totals.
-/

namespace Compaction.Number

def total : List Nat → Nat
  | [] => 0
  | n :: rest => n + total rest

theorem total_append (xs ys : List Nat) : total (xs ++ ys) = total xs + total ys := by
  induction xs with
  | nil => simp [total]
  | cons x xs ih => simp [total, ih, Nat.add_assoc]

end Compaction.Number
