/-!
# UTF-8

Characters as bytes. `decode` accepts exactly the shortest forms of scalar values.
-/

namespace Compaction.Text.Utf8

def byte (n : Nat) : UInt8 := UInt8.ofNat n

/-- One to four bytes, the fewest that hold the code point. -/
def encodeChar (c : Char) : List UInt8 :=
  let n := c.toNat
  if n < 0x80 then [byte n]
  else if n < 0x800 then [byte (0xC0 + n / 0x40), byte (0x80 + n % 0x40)]
  else if n < 0x10000 then
    [byte (0xE0 + n / 0x1000), byte (0x80 + n / 0x40 % 0x40), byte (0x80 + n % 0x40)]
  else
    [byte (0xF0 + n / 0x40000), byte (0x80 + n / 0x1000 % 0x40), byte (0x80 + n / 0x40 % 0x40),
      byte (0x80 + n % 0x40)]

def encode (s : List Char) : List UInt8 := s.flatMap encodeChar

/-- The six bits of a continuation byte. -/
def continuation? (b : UInt8) : Option Nat :=
  if 0x80 ≤ b.toNat ∧ b.toNat < 0xC0 then some (b.toNat - 0x80) else none

/-- The character of a code point that is at least `least` and a scalar value. -/
def scalar? (least n : Nat) : Option Char :=
  if least ≤ n ∧ n.isValidChar then some (Char.ofNat n) else none

/-- The characters of a byte sequence, or nothing if some stretch of it encodes none. -/
def decode : List UInt8 → Option (List Char)
  | [] => some []
  | a :: rest =>
    if a.toNat < 0x80 then (decode rest).map (Char.ofNat a.toNat :: ·)
    else if a.toNat < 0xC0 then none
    else if a.toNat < 0xE0 then
      match rest with
      | b :: rest => do
        let c ← scalar? 0x80 ((a.toNat - 0xC0) * 0x40 + (← continuation? b))
        (decode rest).map (c :: ·)
      | _ => none
    else if a.toNat < 0xF0 then
      match rest with
      | b :: c :: rest => do
        let c ← scalar? 0x800 ((a.toNat - 0xE0) * 0x1000 + (← continuation? b) * 0x40 + (← continuation? c))
        (decode rest).map (c :: ·)
      | _ => none
    else if a.toNat < 0xF8 then
      match rest with
      | b :: c :: d :: rest => do
        let c ← scalar? 0x10000
          ((a.toNat - 0xF0) * 0x40000 + (← continuation? b) * 0x1000 + (← continuation? c) * 0x40 + (← continuation? d))
        (decode rest).map (c :: ·)
      | _ => none
    else none

/-- The number of bytes of a text. -/
def size (s : List Char) : Nat := (encode s).length

end Compaction.Text.Utf8
