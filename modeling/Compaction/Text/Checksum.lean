/-!
# Checksum

The cyclic redundancy check of 32 bits with the reflected polynomial 0xEDB88320, register preset to ones and result
inverted.
-/

namespace Compaction.Text

private def shiftBit (r : UInt32) : UInt32 :=
  if (r &&& 1) = 1 then (0xEDB88320 : UInt32) ^^^ (r >>> 1) else r >>> 1

private def feedByte (r : UInt32) (b : UInt8) : UInt32 :=
  (List.range 8).foldl (fun r _ => shiftBit r) (r ^^^ b.toUInt32)

def crc32 (bytes : List UInt8) : UInt32 := bytes.foldl feedByte 0xFFFFFFFF ^^^ 0xFFFFFFFF

example : crc32 [0x31, 0x32, 0x33, 0x34, 0x35, 0x36, 0x37, 0x38, 0x39] = 0xCBF43926 := by decide +kernel

end Compaction.Text
