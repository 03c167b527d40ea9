import BuildScript.Text.Bytes

/-!
# Base 58

The bytes are read as one large number, which is written with 58 digits: the ASCII digits and letters
without `0`, `I`, `O` and `l`. Each zero byte in front is a digit of its own.
-/

namespace BuildScript.Base58

/-- The digits. -/
def alphabet : Bytes := bytes "123456789ABCDEFGHJKLMNPQRSTUVWXYZabcdefghijkmnopqrstuvwxyz"

/-- The digit of a number below 58. -/
def digit (n : Nat) : UInt8 := alphabet.getD n 49

/-- The digits of a number, ahead of `tail`; none for zero. The first argument bounds their number. -/
def digits : (limit : Nat) → Nat → Bytes → Bytes
  | 0, _, tail => tail
  | limit + 1, n, tail => if n = 0 then tail else digits limit (n / 58) (digit (n % 58) :: tail)

/-- The base 58 form of a byte text. -/
def encode (s : Bytes) : Bytes :=
  let zeros := s.takeWhile (· == 0)
  let value := s.foldl (fun n b => 256 * n + b.toNat) 0
  List.replicate zeros.length 49 ++ digits (2 * s.length) value []

end BuildScript.Base58
