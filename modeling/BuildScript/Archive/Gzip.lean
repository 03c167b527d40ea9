import BuildScript.Digest.Crc32
import BuildScript.Digest.LittleEndian

/-!
# Gzip streams

The contents are stored as they are, in blocks of at most 65535 bytes, between a header and a
checksum.

* `Gzip.encode`: the stream of a text.
* `Gzip.decode?`: the text of a stream of stored blocks.
-/

namespace BuildScript.Gzip

/-- The longest block. -/
def maxBlock : Nat := 65535

/-- The header: a magic number, the method, no flags, no time, no level, an unknown system. -/
def header : Bytes := [0x1F, 0x8B, 8, 0, 0, 0, 0, 0, 0, 255]

/-- A stored block. -/
def block (final : Bool) (data : Bytes) : Bytes :=
  (if final then 1 else 0)
    :: (LittleEndian.encode 2 data.length ++ LittleEndian.encode 2 (maxBlock - data.length) ++ data)

/-- Parts as blocks; the last one is marked. -/
def blocks : List Bytes → Bytes
  | [] => block true []
  | [part] => block true part
  | part :: next :: rest => block false part ++ blocks (next :: rest)

/-- The stream of a text. -/
def encode (data : Bytes) : Bytes :=
  header ++ blocks (LittleEndian.chunks maxBlock data)
    ++ LittleEndian.encode 4 (Crc32.sum data).toNat
    ++ LittleEndian.encode 4 data.length

/-- The contents of stored blocks and what follows the last of them. The first argument bounds the
number of blocks. -/
def unblock? : (limit : Nat) → Bytes → Option (Bytes × Bytes)
  | 0, _ => none
  | limit + 1, mark :: a :: b :: c :: d :: rest =>
    let size := LittleEndian.decode [a, b]
    let data := rest.take size
    if mark > 1 || size + LittleEndian.decode [c, d] != maxBlock || data.length < size then none
    else if mark = 1 then some (data, rest.drop size)
    else (unblock? limit (rest.drop size)).map fun (more, tail) => (data ++ more, tail)
  | _, _ => none

/-- The text of a stream of stored blocks. -/
def decode? (s : Bytes) : Option Bytes :=
  if s.take header.length != header then none
  else
    match unblock? s.length (s.drop header.length) with
    | none => none
    | some (data, tail) =>
      if tail = LittleEndian.encode 4 (Crc32.sum data).toNat ++ LittleEndian.encode 4 data.length then
        some data
      else none

end BuildScript.Gzip
