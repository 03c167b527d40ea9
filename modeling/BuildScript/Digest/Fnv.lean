import BuildScript.Digest.LittleEndian

/-!
# FNV-1 with 64 bits

Each byte first multiplies the sum by a prime and is then mixed in.
-/

namespace BuildScript.Fnv

/-- The sum of no bytes. -/
def offset : UInt64 := 0xcbf29ce484222325

/-- The multiplier. -/
def prime : UInt64 := 0x100000001b3

/-- The sum of a byte text. -/
def sum (s : Bytes) : UInt64 := s.foldl (fun h b => (h * prime) ^^^ b.toUInt64) offset

/-- The sum of a word's eight bytes. -/
def ofWord (n : UInt64) : UInt64 := sum (LittleEndian.encode 8 n.toNat)

/-- The sum of two words in this order. -/
def pair (a b : UInt64) : UInt64 :=
  sum (LittleEndian.encode 8 a.toNat ++ LittleEndian.encode 8 b.toNat)

/-- The sum of a truth value. -/
def ofBool (b : Bool) : UInt64 := sum [if b then 1 else 0]

/-- The sum of a list of sums; their order counts. -/
def ofList (sums : List UInt64) : UInt64 := sums.foldl pair 0

/-- The sum of a named record from the sums of its fields; the order of fields does not count. -/
def ofRecord (name : Bytes) (fields : List (Bytes × UInt64)) : UInt64 :=
  fields.foldl (fun h (field, value) => h ^^^ pair (sum field) value) (sum name)

end BuildScript.Fnv
