import BuildScript.Text.Printable
import BuildScript.Text.Utf8

/-!
# Quoted texts

A text between double quotes, as messages and dumps show it. Printable characters stand for
themselves; a quote and a backslash get a backslash; control characters have a letter of their own
or two hexadecimal digits; a stray byte is shown by its digits; any other character is shown by its
code point.

* `Quoted.quote`: the quoted form of a byte text.
* `Quoted.quoteChar`: the form of a single character, between single quotes.
-/

namespace BuildScript.Quoted

/-- The letter of a control character that has one. -/
def letter? (n : Nat) : Option UInt8 :=
  match n with
  | 7 => some 97
  | 8 => some 98
  | 9 => some 116
  | 10 => some 110
  | 11 => some 118
  | 12 => some 102
  | 13 => some 114
  | _ => none

/-- The form of one piece between quotes that are the character `mark`. -/
def quotePiece (mark : Nat) (p : Utf8.Piece) : Bytes :=
  match p.scalar? with
  | none => bytes "\\x" ++ p.raw.flatMap fun b => Bytes.hexFixed 2 b.toNat
  | some n =>
    if n = mark || n = 92 then 92 :: p.raw
    else if Printable.isPrintable n then p.raw
    else
      match letter? n with
      | some c => [92, c]
      | none =>
        if n < 0x80 then bytes "\\x" ++ Bytes.hexFixed 2 n
        else if n < 0x10000 then bytes "\\u" ++ Bytes.hexFixed 4 n
        else bytes "\\U" ++ Bytes.hexFixed 8 n

/-- The quoted form of a text. -/
def quote (s : Bytes) : Bytes := 34 :: ((Utf8.pieces s).flatMap (quotePiece 34) ++ [34])

/-- The quoted form of the character with a code point. -/
def quoteChar (n : Nat) : Bytes := 39 :: (quotePiece 39 ⟨Utf8.encode n, some n⟩ ++ [39])

end BuildScript.Quoted
