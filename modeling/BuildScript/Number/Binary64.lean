import BuildScript.Text.Bytes

/-!
# Double-precision numbers

A double is kept as what it stands for: a whole number times a power of two, an infinity, or not a
number. Decimal numerals are rounded to the nearest double in exact arithmetic, a half going to the
even neighbour.

* `Binary64.ofRatio`: the double nearest to a fraction.
* `Decimal.parse?`: the digits and the exponent of a numeral.
* `Binary64.ofNumeral?`: the double nearest to a numeral, if it is not too large.
* `Binary64.toNat?`: the whole number that a double stands for.
-/

namespace BuildScript

/-- A double-precision number. -/
inductive Binary64 where
  | nan
  | infinity (negative : Bool)
  /-- The number `mantissa * 2 ^ exponent`, below zero if `negative`. -/
  | finite (negative : Bool) (mantissa : Nat) (exponent : Int)
  deriving Repr, DecidableEq

namespace Binary64

/-- The least exponent. -/
def minExponent : Int := -1074

/-- The quotient of `num / den` by `2 ^ exponent`, as a numerator and a denominator. -/
def scale (num den : Nat) : (exponent : Int) → Nat × Nat
  | .ofNat k => (num, den * Nat.pow 2 k)
  | .negSucc k => (num * Nat.pow 2 (k + 1), den)

/-- The whole number nearest to a fraction; a half goes to the even neighbour. -/
def roundDiv (num den : Nat) : Nat :=
  let q := num / den
  let r := num % den
  if 2 * r < den then q else if den < 2 * r then q + 1 else q + q % 2

/-- The double nearest to `num / den`. -/
def ofRatio (negative : Bool) (num den : Nat) : Binary64 :=
  if num = 0 then .finite negative 0 0
  else
    let guess : Int := max ((num.log2 : Int) - den.log2 - 53) minExponent
    let exponent :=
      match scale num den guess with
      | (n, d) => if Nat.pow 2 53 ≤ n / d then guess + 1 else guess
    match scale num den exponent with
    | (n, d) =>
      let mantissa := roundDiv n d
      if (1024 : Int) ≤ mantissa.log2 + exponent then .infinity negative
      else .finite negative mantissa exponent

/-- The whole number, zero or above, that a double stands for. One that does not fit into 64 bits
reads as `2 ^ 63`. -/
def toNat? : Binary64 → Option UInt64
  | nan => none
  | infinity negative => if negative then none else some 0x8000000000000000
  | finite negative mantissa exponent =>
    let value? : Option Nat :=
      match exponent with
      | .ofNat k => some (mantissa * Nat.pow 2 k)
      | .negSucc k =>
        if mantissa % Nat.pow 2 (k + 1) = 0 then some (mantissa / Nat.pow 2 (k + 1)) else none
    if negative && mantissa != 0 then none
    else value?.map fun n => if n < Nat.pow 2 64 then n.toUInt64 else 0x8000000000000000

end Binary64

/-- An unsigned decimal numeral: the number `digits * 10 ^ exponent`. -/
structure Decimal where
  digits : Nat
  exponent : Int
  deriving Repr, DecidableEq

namespace Decimal

/-- The exponent part of a numeral after its mark: an optional sign and at least one digit. -/
def exponent? : Bytes → Option Int
  | 43 :: rest => (Bytes.toNat? rest).map Int.ofNat
  | 45 :: rest => (Bytes.toNat? rest).map fun n => -Int.ofNat n
  | rest => (Bytes.toNat? rest).map Int.ofNat

/-- Reads digits with an optional point among them and an optional exponent. -/
def parse? (s : Bytes) : Option Decimal := do
  let whole := s.takeWhile Bytes.isDigit
  let (fraction, rest) :=
    match s.dropWhile Bytes.isDigit with
    | 46 :: rest => (rest.takeWhile Bytes.isDigit, rest.dropWhile Bytes.isDigit)
    | rest => ([], rest)
  let digits ← Bytes.toNat? (whole ++ fraction)
  let exponent ←
    match rest with
    | [] => some 0
    | 69 :: rest | 101 :: rest => exponent? rest
    | _ => none
  return ⟨digits, exponent - fraction.length⟩

/-- The double nearest to the numeral. An exponent far out of range is not worked out. -/
def round (negative : Bool) (d : Decimal) : Binary64 :=
  let magnitude : Int := d.exponent + (Bytes.ofNat d.digits).length
  if d.digits = 0 || magnitude < -400 then .finite negative 0 0
  else if 400 < magnitude then .infinity negative
  else
    match d.exponent with
    | .ofNat k => .ofRatio negative (d.digits * Nat.pow 10 k) 1
    | .negSucc k => .ofRatio negative d.digits (Nat.pow 10 (k + 1))

end Decimal

namespace Binary64

/-- The double nearest to a numeral with an optional sign, unless it is too large. -/
def ofNumeral? (s : Bytes) : Option Binary64 := do
  let (negative, rest) :=
    match s with
    | 43 :: rest => (false, rest)
    | 45 :: rest => (true, rest)
    | rest => (false, rest)
  let value := (← Decimal.parse? rest).round negative
  match value with
  | .infinity _ => none
  | _ => some value

end Binary64

end BuildScript
