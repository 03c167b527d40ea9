import BuildScript.Text.Utf8

/-!
# Writing JSON texts

Texts are written so that they can also stand in a web page: angle brackets, ampersands and the
line separators of Unicode are escaped besides the control characters.

* `Json.quote`: the literal of a byte text.
* `Json.fields`: an object of texts, a field on each line.
-/

namespace BuildScript.Json

/-- The escape of a character that has one of one letter. -/
def letterEscape? (n : Nat) : Option UInt8 :=
  match n with
  | 34 => some 34
  | 92 => some 92
  | 8 => some 98
  | 9 => some 116
  | 10 => some 110
  | 12 => some 102
  | 13 => some 114
  | _ => none

/-- Whether a character is written by its number. -/
def isNumbered (n : Nat) : Bool :=
  n < 32 || n = 38 || n = 60 || n = 62 || n = 0x2028 || n = 0x2029

/-- One character inside a literal. A stray byte is written as the character U+FFFD itself, not by its
number. -/
def quotePiece (p : Utf8.Piece) : Bytes :=
  match p.scalar? with
  | none => Utf8.replacement
  | some n =>
    match letterEscape? n with
    | some c => [92, c]
    | none => if isNumbered n then 92 :: 117 :: Bytes.hexFixed 4 n else p.raw

/-- The literal of a text. -/
def quote (s : Bytes) : Bytes := 34 :: ((Utf8.pieces s).flatMap quotePiece ++ [34])

/-- A field of an object on a line of its own. -/
def field (key value : Bytes) : Bytes := bytes "  " ++ quote key ++ bytes ": " ++ quote value

/-- An object of texts, a field on each line, with a line feed at the end. -/
def fields (members : List (Bytes × Bytes)) : Bytes :=
  bytes "\x7b\n" ++ Bytes.join (bytes ",\n") (members.map fun (key, value) => field key value)
    ++ bytes "\n\x7d\n"

end BuildScript.Json
