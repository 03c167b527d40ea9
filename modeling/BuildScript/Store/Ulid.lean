import BuildScript.Text.Bytes

/-!
# Build ids

An id is a number of 128 bits, a time in milliseconds ahead of eighty random bits, written with 26
digits of five bits each. Ids sort by their time.

* `Ulid.encode`: the id of a time and a random number.
-/

namespace BuildScript.Ulid

/-- The digits, without the letters that look like others. -/
def alphabet : Bytes := bytes "0123456789ABCDEFGHJKMNPQRSTVWXYZ"

/-- The digit of a number below 32. -/
def digit (n : Nat) : UInt8 := alphabet.getD n 48

/-- The lowest `width` digits of a number, the most significant one first. -/
def digits : (width : Nat) → Nat → Bytes
  | 0, _ => []
  | width + 1, n => digits width (n / 32) ++ [digit (n % 32)]

/-- The id of a time and a random number. -/
def encode (time random : Nat) : Bytes :=
  digits 26 (time % Nat.pow 2 48 * Nat.pow 2 80 + random % Nat.pow 2 80)

end BuildScript.Ulid
