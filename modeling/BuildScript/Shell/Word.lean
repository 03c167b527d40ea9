import BuildScript.Text.Utf8

/-!
# Shell words

A text is written as one word of the shell: letters, digits and a few marks stand for themselves, a
line feed is put between single quotes, and every other character gets a backslash in front. A stray
byte is treated like a character. The empty text is a pair of single quotes.

* `Word.escape`: the word for a text.
-/

namespace BuildScript.Word

/-- The characters that mean themselves in a word: ASCII letters and digits and `_-.,:/@`. -/
def isSafe (n : Nat) : Bool :=
  (65 ≤ n && n ≤ 90) || (97 ≤ n && n ≤ 122) || (48 ≤ n && n ≤ 57)
    || n = 95 || n = 45 || n = 46 || n = 44 || n = 58 || n = 47 || n = 64

/-- One piece inside a word. -/
def escapePiece (p : Utf8.Piece) : Bytes :=
  match p.scalar? with
  | some n => if isSafe n then p.raw else if n = 10 then [39, 10, 39] else 92 :: p.raw
  | none => 92 :: p.raw

/-- The word that the shell reads back as `s`. -/
def escape (s : Bytes) : Bytes :=
  if s = [] then [39, 39] else (Utf8.pieces s).flatMap escapePiece

end BuildScript.Word
