import BuildScript.Text.Bytes

/-!
# Numbers as bytes, the least significant byte first
-/

namespace BuildScript.LittleEndian

/-- The `width` lowest bytes of a number. -/
def encode : (width : Nat) → Nat → Bytes
  | 0, _ => []
  | width + 1, n => (n % 256).toUInt8 :: encode width (n / 256)

/-- The number whose bytes are given. -/
def decode : Bytes → Nat
  | [] => 0
  | b :: rest => b.toNat + 256 * decode rest

/-- An integer in eight bytes, negative ones in two's complement. -/
def ofInt (n : Int) : Bytes := encode 8 (n % 0x10000000000000000).toNat

/-- A length in eight bytes. -/
def ofLength (n : Nat) : Bytes := encode 8 n

/-- A text cut into parts of `size` bytes; the last one may be shorter. The first argument bounds
the number of parts. -/
def chunksAux (size : Nat) : (limit : Nat) → Bytes → List Bytes
  | 0, _ => []
  | limit + 1, s => if s = [] then [] else s.take size :: chunksAux size limit (s.drop size)

/-- A text cut into parts of `size` bytes; the last one may be shorter. -/
def chunks (size : Nat) (s : Bytes) : List Bytes := chunksAux size s.length s

/-- A text filled up with zero bytes to `size` bytes. -/
def padded (size : Nat) (s : Bytes) : Bytes := s ++ List.replicate (size - s.length) 0

end BuildScript.LittleEndian
