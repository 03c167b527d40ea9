import BuildScript.Number.Binary64

/-!
# The shortest numeral of a double

* `Binary64.positional`: the fewest digits that read back, without an exponent.
-/

namespace BuildScript.Binary64

/-- Whether two doubles stand for the same number, signs apart. -/
def sameSize : Binary64 → Binary64 → Bool
  | finite _ m e, finite _ n f =>
    let low := min e f
    m * Nat.pow 2 (e - low).toNat = n * Nat.pow 2 (f - low).toNat
  | _, _ => false

/-- The size of `mantissa * 2 ^ exponent * 10 ^ shift`, rounded to a whole number. -/
def scaled (mantissa : Nat) (exponent shift : Int) : Nat :=
  let num := mantissa * Nat.pow 2 exponent.toNat * Nat.pow 10 shift.toNat
  roundDiv num (Nat.pow 2 (-exponent).toNat * Nat.pow 10 (-shift).toNat)

/-- The number of digits ahead of the point. -/
def wholeDigits (mantissa : Nat) (exponent : Int) : Int :=
  let num := mantissa * Nat.pow 2 exponent.toNat
  let den := Nat.pow 2 (-exponent).toNat
  if den ≤ num then (Bytes.ofNat (num / den)).length
  else 1 - ((Bytes.ofNat ((den - 1) / num)).length : Int)

/-- The decimal nearest to a double with the fewest digits that read back, tried from `digits` on.
The first argument bounds the number of tries. -/
def shortestFrom (mantissa : Nat) (exponent : Int) : (limit digits : Nat) → Decimal
  | 0, digits =>
    let shift := (digits : Int) - wholeDigits mantissa exponent
    ⟨scaled mantissa exponent shift, -shift⟩
  | limit + 1, digits =>
    let shift := (digits : Int) - wholeDigits mantissa exponent
    let guess : Decimal := ⟨scaled mantissa exponent shift, -shift⟩
    if sameSize (guess.round false) (.finite false mantissa exponent) then guess
    else shortestFrom mantissa exponent limit (digits + 1)

/-- A decimal without an exponent. -/
def writeOut (d : Decimal) : Bytes :=
  let digits := Bytes.ofNat d.digits
  if 0 ≤ d.exponent then digits ++ List.replicate d.exponent.toNat 48
  else
    let places := (-d.exponent).toNat
    let padded := List.replicate (places + 1 - digits.length) 48 ++ digits
    let whole := padded.take (padded.length - places)
    let fraction := ((padded.drop (padded.length - places)).reverse.dropWhile (· == 48)).reverse
    if fraction = [] then whole else whole ++ 46 :: fraction

/-- The fewest digits that read back, without an exponent. -/
def positional : Binary64 → Bytes
  | nan => bytes "NaN"
  | infinity negative => if negative then bytes "-Inf" else bytes "+Inf"
  | finite negative mantissa exponent =>
    (if negative then [45] else [])
      ++ if mantissa = 0 then [48] else writeOut (shortestFrom mantissa exponent 16 1)

end BuildScript.Binary64
