import Compaction.Fault
import Compaction.Task.Word
import Compaction.Text.Utf8

/-!
# Packed tasks

A task as bytes: the count of the partition's values, each value after the tag of its type, the count of the files, and
each file as its name, rows, size and level. Counts have four bytes, and a text is preceded by the count of its bytes.
A truth value is written as 0 or 1 and read as false only if it is 0. Every byte belongs to the task.
-/

namespace Compaction.Packed

def packCount (n : Nat) : Except Fault (List UInt8) :=
  if n < 0x100000000 then .ok (Word.toBytes 4 n) else .error (.bare .badPacking)

def packSigned (width : Nat) (n : Int) : Except Fault (List UInt8) :=
  if Word.fits width n then .ok (Word.signedToBytes width n) else .error (.unfit width n)

def packText (s : String) : Except Fault (List UInt8) := do
  let bytes := Text.Utf8.encode s.toList
  return (← packCount bytes.length) ++ bytes

def packName : FileName → Except Fault (List UInt8)
  | .text s => packText s
  | .broken _ => .error (.bare .unencodable)

def packValue : Value → Except Fault (List UInt8)
  | .null => .ok [0]
  | .bool b => .ok [1, if b then 1 else 0]
  | .int n => do return 2 :: (← packSigned 8 n)
  | .float x _ => .ok (3 :: Word.toBytes 8 x.bits.toNat)
  | .text s => do return 4 :: (← packText s)
  | .broken _ => .error (.bare .unencodable)
  | v => .error (.unsupportedType v.typeName)

def packFile (f : DataFile) : Except Fault (List UInt8) := do
  let name ← packName f.name
  let rows ← packSigned 8 f.rows
  let size ← packSigned 8 f.size
  let level ← packSigned 4 f.level
  return name ++ rows ++ size ++ level

/-- The count of the items and the items. -/
def packAll {α : Type} (pack : α → Except Fault (List UInt8)) (items : List α) : Except Fault (List UInt8) := do
  let count ← packCount items.length
  return count ++ (← items.mapM pack).flatten

def pack (t : Task) : Except Fault (List UInt8) := do
  let values ← packAll packValue t.partition
  return values ++ (← packAll packFile t.files)

/-- What reads a part of the bytes gives the part and the bytes after it. -/
abbrev Unpack (α : Type) := List UInt8 → Except Fault (α × List UInt8)

def take (n : Nat) : Unpack (List UInt8) := fun bytes =>
  if (bytes.take n).length = n then .ok (bytes.take n, bytes.drop n) else .error .unexpectedEnd

def unpackCount : Unpack Nat := fun bytes => do
  let (word, rest) ← take 4 bytes
  return (Word.ofBytes word, rest)

def unpackSigned (width : Nat) : Unpack Int := fun bytes => do
  let (word, rest) ← take width bytes
  return (Word.signedOfBytes word, rest)

def unpackText : Unpack String := fun bytes => do
  let (length, rest) ← unpackCount bytes
  let (text, rest) ← take length rest
  match Text.Utf8.decode text with
  | some s => return (String.ofList s, rest)
  | none => throw (.bare .badEncoding)

def unpackValue : Unpack Value
  | [] => .error .unexpectedEnd
  | tag :: bytes => match tag.toNat with
    | 0 => .ok (.null, bytes)
    | 1 => do
      let (word, rest) ← take 1 bytes
      return (.bool (Word.ofBytes word ≠ 0), rest)
    | 2 => do
      let (n, rest) ← unpackSigned 8 bytes
      return (.int n, rest)
    | 3 => do
      let (word, rest) ← take 8 bytes
      return (.float ⟨UInt64.ofNat (Word.ofBytes word)⟩ 0, rest)
    | 4 => do
      let (s, rest) ← unpackText bytes
      return (.text s, rest)
    | n => .error (.unknownTag n)

def unpackFile : Unpack DataFile := fun bytes => do
  let (name, rest) ← unpackText bytes
  let (rows, rest) ← unpackSigned 8 rest
  let (size, rest) ← unpackSigned 8 rest
  let (level, rest) ← unpackSigned 4 rest
  return (⟨name, rows, size, level⟩, rest)

/-- `n` items one after another. -/
def unpackMany {α : Type} (unpack : Unpack α) : Nat → Unpack (List α)
  | 0, bytes => .ok ([], bytes)
  | n + 1, bytes => do
    let (item, rest) ← unpack bytes
    let (items, rest) ← unpackMany unpack n rest
    return (item :: items, rest)

def unpackAll {α : Type} (unpack : Unpack α) : Unpack (List α) := fun bytes => do
  let (n, rest) ← unpackCount bytes
  unpackMany unpack n rest

def unpack (bytes : List UInt8) : Except Fault Task := do
  let (partition, rest) ← unpackAll unpackValue bytes
  let (files, rest) ← unpackAll unpackFile rest
  if rest.isEmpty then return ⟨partition, files⟩ else throw .trailingBytes

end Compaction.Packed
