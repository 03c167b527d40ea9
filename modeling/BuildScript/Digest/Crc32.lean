import BuildScript.Text.Bytes

/-!
# CRC-32

The checksum of a byte text as gzip archives hold it.
-/

namespace BuildScript.Crc32

/-- One bit of the division. -/
def step (c : UInt32) : UInt32 := if c % 2 = 1 then (c >>> 1) ^^^ 0xEDB88320 else c >>> 1

/-- One byte of the division. -/
def push (c : UInt32) (b : UInt8) : UInt32 :=
  step (step (step (step (step (step (step (step (c ^^^ b.toUInt32))))))))

/-- The checksum of a byte text. -/
def sum (s : Bytes) : UInt32 := s.foldl push 0xFFFFFFFF ^^^ 0xFFFFFFFF

end BuildScript.Crc32
