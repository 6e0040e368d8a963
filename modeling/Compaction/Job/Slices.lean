/-!
# Slices

How the units of a job are dealt out to workers: one by one in turn, or in stretches of about the same length.

* `flatten_stretches` — stretches neither lose nor move a unit.
-/

namespace Compaction

variable {α : Type}

/-- Passes over `skip` elements, takes one, then every `n`-th after it. -/
def stride (n : Nat) : Nat → List α → List α
  | _, [] => []
  | 0, x :: rest => x :: stride n (n - 1) rest
  | skip + 1, _ :: rest => stride n skip rest

/-- The units dealt out one by one to at most `workers` slices, none of them empty. -/
def slices (units : List α) (workers : Int) : List (List α) :=
  let n := (max 1 (min workers units.length)).toNat
  ((List.range n).map fun i => stride n i units).filter (!·.isEmpty)

/-- Where the `i`-th of `n` stretches begins in a list of `length` elements. -/
def stretchStart (length n i : Nat) : Nat := i * length / n

/-- The units in `n` stretches. -/
def stretches (units : List α) (n : Nat) : List (List α) :=
  (List.range n).map fun i =>
    let start := stretchStart units.length n i
    (units.drop start).take (stretchStart units.length n (i + 1) - start)

private theorem stretchStart_le_succ (length n i : Nat) : stretchStart length n i ≤ stretchStart length n (i + 1) :=
  Nat.div_le_div_right (Nat.mul_le_mul_right length (Nat.le_succ i))

private theorem flatten_firstStretches (units : List α) (n k : Nat) :
    ((List.range k).map fun i =>
      (units.drop (stretchStart units.length n i)).take
        (stretchStart units.length n (i + 1) - stretchStart units.length n i)).flatten =
      units.take (stretchStart units.length n k) := by
  induction k with
  | zero => simp [stretchStart]
  | succ k ih =>
    rw [List.range_succ, List.map_append, List.flatten_append, ih]
    have h := List.take_add (l := units) (i := stretchStart units.length n k)
      (j := stretchStart units.length n (k + 1) - stretchStart units.length n k)
    rw [Nat.add_sub_cancel' (stretchStart_le_succ units.length n k)] at h
    simp [h]

theorem flatten_stretches {n : Nat} (h : 0 < n) (units : List α) : (stretches units n).flatten = units := by
  have e := flatten_firstStretches units n n
  rw [stretchStart, Nat.mul_div_cancel_left _ h, List.take_length] at e
  exact e

end Compaction
