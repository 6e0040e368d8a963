/-!
# Blank space

The blank characters, and trimming a text of them at both ends. A text trims to nothing exactly when all of it
is blank (`trim_eq_nil_iff`).
-/

namespace Compaction.Text

/-- White space of every script, with the four separator controls U+001C to U+001F. -/
def isBlank (c : Char) : Bool :=
  let n := c.toNat
  (9 ≤ n && n ≤ 13) || (28 ≤ n && n ≤ 32) || n == 0x85 || n == 0xA0 || n == 0x1680 ||
    (0x2000 ≤ n && n ≤ 0x200A) || n == 0x2028 || n == 0x2029 || n == 0x202F || n == 0x205F || n == 0x3000

def trimStart (s : List Char) : List Char := s.dropWhile isBlank

def trimEnd (s : List Char) : List Char := (s.reverse.dropWhile isBlank).reverse

/-- Drops the blank characters at both ends. -/
def trim (s : List Char) : List Char := trimEnd (trimStart s)

/-- Whether nothing but blank space is in the text. -/
def allBlank (s : List Char) : Bool := s.all isBlank

/-- `trim` on strings. -/
def trimmed (s : String) : String := String.ofList (trim s.toList)

private theorem trimStart_cons {c : Char} (h : isBlank c = true) (r : List Char) :
    trimStart (c :: r) = trimStart r :=
  List.dropWhile_cons_of_pos h

private theorem allBlank_cons {c : Char} (h : isBlank c = true) (r : List Char) : allBlank (c :: r) = allBlank r := by
  rw [allBlank, List.all_cons, h, Bool.true_and, allBlank]

private theorem trimStart_eq_nil_iff {s : List Char} : trimStart s = [] ↔ allBlank s = true := by
  induction s with
  | nil => simp [trimStart, allBlank]
  | cons c r ih =>
    cases h : isBlank c with
    | true => rw [trimStart_cons h, allBlank_cons h, ih]
    | false => simp [trimStart, allBlank, h]

private theorem trimEnd_eq_nil_iff {s : List Char} : trimEnd s = [] ↔ allBlank s = true := by
  rw [trimEnd, List.reverse_eq_nil_iff, ← trimStart, trimStart_eq_nil_iff, allBlank, allBlank, List.all_reverse]

private theorem allBlank_trimStart {s : List Char} : allBlank (trimStart s) = allBlank s := by
  induction s with
  | nil => rfl
  | cons c r ih =>
    cases h : isBlank c with
    | true => rw [trimStart_cons h, allBlank_cons h, ih]
    | false => simp [trimStart, allBlank, h]

theorem trim_eq_nil_iff {s : List Char} : trim s = [] ↔ allBlank s = true := by
  rw [trim, trimEnd_eq_nil_iff, allBlank_trimStart]

end Compaction.Text
