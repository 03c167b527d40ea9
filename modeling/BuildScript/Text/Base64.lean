import BuildScript.Text.Bytes

/-!
# Base 64

Three bytes are written as four digits of six bits each; a last group of one or two bytes is filled
up with `=`.

* `Base64.encode`: the padded form of a byte text.
* `Base64.decode?`: its inverse; line ends between digits are skipped.
-/

namespace BuildScript.Base64

/-- The digit of a number below 64. -/
def digit (n : Nat) : UInt8 :=
  if n < 26 then (65 + n).toUInt8
  else if n < 52 then (71 + n).toUInt8
  else if n < 62 then (n - 4).toUInt8
  else if n = 62 then 43
  else 47

/-- The value of a digit. -/
def value? (b : UInt8) : Option Nat :=
  if 65 ≤ b && b ≤ 90 then some (b.toNat - 65)
  else if 97 ≤ b && b ≤ 122 then some (b.toNat - 71)
  else if 48 ≤ b && b ≤ 57 then some (b.toNat + 4)
  else if b = 43 then some 62
  else if b = 47 then some 63
  else none

/-- The base 64 form of a byte text. -/
def encode : Bytes → Bytes
  | [] => []
  | [a] => [digit (a.toNat / 4), digit (a.toNat % 4 * 16), 61, 61]
  | [a, b] =>
    [digit (a.toNat / 4), digit (a.toNat % 4 * 16 + b.toNat / 16), digit (b.toNat % 16 * 4), 61]
  | a :: b :: c :: rest =>
    digit (a.toNat / 4) :: digit (a.toNat % 4 * 16 + b.toNat / 16)
      :: digit (b.toNat % 16 * 4 + c.toNat / 64) :: digit (c.toNat % 64) :: encode rest

/-- The bytes of a row of digits without line ends. -/
def decodeDigits? : Bytes → Option Bytes
  | [] => some []
  | [a, b, 61, 61] => do
    let x ← value? a
    let y ← value? b
    return [(x * 4 + y / 16).toUInt8]
  | [a, b, c, 61] => do
    let x ← value? a
    let y ← value? b
    let z ← value? c
    return [(x * 4 + y / 16).toUInt8, (y % 16 * 16 + z / 4).toUInt8]
  | a :: b :: c :: d :: rest => do
    let x ← value? a
    let y ← value? b
    let z ← value? c
    let w ← value? d
    let tail ← decodeDigits? rest
    return (x * 4 + y / 16).toUInt8 :: (y % 16 * 16 + z / 4).toUInt8
      :: (z % 4 * 64 + w).toUInt8 :: tail
  | _ => none

/-- The bytes that a base 64 text stands for. -/
def decode? (s : Bytes) : Option Bytes := decodeDigits? (s.filter fun b => b != 10 && b != 13)

end BuildScript.Base64
