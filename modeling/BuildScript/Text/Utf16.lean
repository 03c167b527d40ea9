import BuildScript.Text.Bytes

/-!
# UTF-16

A character above U+FFFF is written as two units, a high one and a low one.

* `Utf16.combine`: the character that two halves make up.
* `Utf16.decode`: a byte text as characters and stray units.
-/

namespace BuildScript.Utf16

/-- The first half of a character above U+FFFF. -/
def isHigh (n : Nat) : Bool := 0xD800 ≤ n && n < 0xDC00

/-- The second half of a character above U+FFFF. -/
def isLow (n : Nat) : Bool := 0xDC00 ≤ n && n < 0xE000

/-- The character that two halves make up. -/
def combine (high low : Nat) : Nat := 0x10000 + (high - 0xD800) * 1024 + (low - 0xDC00)

/-- The units of a byte text. -/
def units (bigEndian : Bool) : Bytes → List (Option Nat)
  | [] => []
  | [_] => [none]
  | a :: b :: rest =>
    some (if bigEndian then 256 * a.toNat + b.toNat else a.toNat + 256 * b.toNat)
      :: units bigEndian rest

/-- The characters of a row of units, each with the number of its bytes, up to the first unit that
stands alone. -/
def characters : List (Option Nat) → List (Option Nat × Nat)
  | [] => []
  | some u :: some v :: rest =>
    if isHigh u && isLow v then (some (combine u v), 4) :: characters rest
    else if isHigh u || isLow u then [(none, 2)]
    else (some u, 2) :: characters (some v :: rest)
  | [some u] => [(if isHigh u || isLow u then none else some u, 2)]
  | [some u, none] => [(if isHigh u || isLow u then none else some u, 2), (none, 1)]
  | _ => [(none, 1)]

/-- The characters of a byte text, each with the number of its bytes. -/
def decode (bigEndian : Bool) (s : Bytes) : List (Option Nat × Nat) :=
  characters (units bigEndian s)

end BuildScript.Utf16
