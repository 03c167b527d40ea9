/-!
# Byte texts

Every text of a build script (a command, a path, the contents of a file) is a sequence of bytes:
it may hold invalid UTF-8 and zero bytes, and its order is the order of bytes.

* `bytes`: the UTF-8 form of a literal.
* `Bytes.splitOn`, `Bytes.join`: cutting a text at a byte and putting the parts together again.
* `Bytes.ofNat`, `Bytes.ofInt`: decimal numerals.
-/

namespace BuildScript

/-- A text as the bytes it is made of. -/
abbrev Bytes := List UInt8

/-- The UTF-8 form of a literal. -/
def bytes (s : String) : Bytes := s.toList.flatMap String.utf8EncodeChar

namespace Bytes

/-- Whether `s` starts with `pre`. -/
def startsWith (pre s : Bytes) : Bool := pre.isPrefixOf s

/-- The parts of a text between the bytes equal to `sep`: one more part than separators. -/
def splitOn (sep : UInt8) : Bytes → List Bytes
  | [] => [[]]
  | b :: rest =>
    if b = sep then [] :: splitOn sep rest
    else
      match splitOn sep rest with
      | [] => [[b]]
      | part :: parts => (b :: part) :: parts

/-- The parts of a list with `sep` between each two. -/
def join (sep : Bytes) : List Bytes → Bytes
  | [] => []
  | [part] => part
  | part :: next :: rest => part ++ sep ++ join sep (next :: rest)

/-- The lines of a text: its parts between line feeds. -/
def lines (s : Bytes) : List Bytes := splitOn 10 s

/-- The text before the first byte equal to `sep`, and what follows that byte if there is one. -/
def cut (sep : UInt8) : Bytes → Bytes × Option Bytes
  | [] => ([], none)
  | b :: rest =>
    if b = sep then ([], some rest)
    else
      let (head, tail) := cut sep rest
      (b :: head, tail)

/-- Removes every leading and trailing byte equal to `c`. -/
def trim (c : UInt8) (s : Bytes) : Bytes :=
  ((s.dropWhile (· == c)).reverse.dropWhile (· == c)).reverse

/-- A text with every byte equal to `a` replaced by `b`. -/
def replaceByte (a b : UInt8) (s : Bytes) : Bytes := s.map fun c => if c = a then b else c

/-- Byte-wise order of two texts: a proper beginning comes first. -/
def before (a b : Bytes) : Bool := decide (a < b)

/-- The byte of an ASCII capital letter made small; every other byte is kept. -/
def lowerByte (b : UInt8) : UInt8 := if 65 ≤ b && b ≤ 90 then b + 32 else b

/-- ASCII letters made small. -/
def toLower (s : Bytes) : Bytes := s.map lowerByte

/-- Whether a byte is an ASCII decimal digit. -/
def isDigit (b : UInt8) : Bool := 48 ≤ b && b ≤ 57

/-- The value of an ASCII hexadecimal digit. -/
def hexValue? (b : UInt8) : Option Nat :=
  if 48 ≤ b && b ≤ 57 then some (b.toNat - 48)
  else if 97 ≤ b && b ≤ 102 then some (b.toNat - 87)
  else if 65 ≤ b && b ≤ 70 then some (b.toNat - 55)
  else none

/-- The lower-case hexadecimal digit of a number below sixteen. -/
def hexDigit (n : Nat) : UInt8 := if n < 10 then (48 + n).toUInt8 else (87 + n).toUInt8

/-- The lower-case hexadecimal numeral of `n` with exactly `width` digits. -/
def hexFixed : (width : Nat) → (n : Nat) → Bytes
  | 0, _ => []
  | width + 1, n => hexFixed width (n / 16) ++ [hexDigit (n % 16)]

/-- The numeral of `n` in `base`, without leading zeros, ahead of `tail`. The first argument bounds
the number of digits. -/
def numeralAux (base : Nat) : (limit : Nat) → Nat → Bytes → Bytes
  | 0, _, tail => tail
  | limit + 1, n, tail =>
    if n < base then hexDigit n :: tail
    else numeralAux base limit (n / base) (hexDigit (n % base) :: tail)

/-- The decimal numeral of a natural number. -/
def ofNat (n : Nat) : Bytes := numeralAux 10 (n + 1) n []

/-- The hexadecimal numeral of a natural number, without leading zeros. -/
def ofNatHex (n : Nat) : Bytes := numeralAux 16 (n + 1) n []

/-- The decimal numeral of an integer. -/
def ofInt : Int → Bytes
  | .ofNat n => ofNat n
  | .negSucc n => 45 :: ofNat (n + 1)

/-- The value of a non-empty row of decimal digits. -/
def toNat? (s : Bytes) : Option Nat :=
  if s.isEmpty || !s.all isDigit then none
  else some (s.foldl (fun n b => 10 * n + (b.toNat - 48)) 0)

end Bytes

end BuildScript
