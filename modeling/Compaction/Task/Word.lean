/-!
# Words

Whole numbers as bytes of a fixed count, the most significant first. A negative number is written as the one that
differs from it by the count of all that fit.

* `ofBytes_toBytes` — a number that fits is read back;
* `length_toBytes` — the count is kept.
-/

namespace Compaction.Word

/-- The lowest `width` bytes of a number. -/
def toBytes : Nat → Nat → List UInt8
  | 0, _ => []
  | width + 1, n => toBytes width (n / 256) ++ [UInt8.ofNat n]

def ofBytes (bs : List UInt8) : Nat := bs.foldl (fun n b => 256 * n + b.toNat) 0

/-- How many numbers fit into `width` bytes. -/
def range (width : Nat) : Nat := Nat.pow 256 width

/-- Whether a signed number fits into `width` bytes. -/
def fits (width : Nat) (n : Int) : Bool := -(range width : Int) ≤ 2 * n && 2 * n < range width

def signedToBytes (width : Nat) (n : Int) : List UInt8 := toBytes width (n % range width).toNat

def signedOfBytes (bs : List UInt8) : Int :=
  let n := ofBytes bs
  if 2 * n < range bs.length then n else (n : Int) - range bs.length

theorem length_toBytes (width n : Nat) : (toBytes width n).length = width := by
  induction width generalizing n with
  | zero => rfl
  | succ width ih => simp [toBytes, ih]

theorem ofBytes_append_singleton (bs : List UInt8) (b : UInt8) : ofBytes (bs ++ [b]) = 256 * ofBytes bs + b.toNat := by
  simp [ofBytes]

theorem ofBytes_toBytes {width n : Nat} (h : n < range width) : ofBytes (toBytes width n) = n := by
  induction width generalizing n with
  | zero => simp [range] at h; simp [toBytes, ofBytes, h]
  | succ width ih =>
    have step : range (width + 1) = range width * 256 := rfl
    rw [toBytes, ofBytes_append_singleton, ih (by omega)]
    simp
    omega

end Compaction.Word
