import BuildScript.Text.Utf8

/-!
# A place in a YAML text

A cursor holds what is still to be read, and counts characters, lines and columns. Past the end of
the text it shows the character zero, which no text holds.

* `Cursor.peek`, `Cursor.advance`, `Cursor.span`: looking ahead and going on within a line.
* `Cursor.lineBreak`: going on to the next line.
-/

namespace BuildScript.Yaml

/-- A blank or a tab. -/
def isBlank (c : Nat) : Bool := c = 32 || c = 9

/-- A character that ends a line. -/
def isBreak (c : Nat) : Bool := c = 13 || c = 10 || c = 0x85 || c = 0x2028 || c = 0x2029

/-- The end of a line or of the text. -/
def isBreakOrEnd (c : Nat) : Bool := isBreak c || c = 0

/-- What may stand after a word: a blank, or the end of the line or of the text. -/
def isGap (c : Nat) : Bool := isBlank c || isBreakOrEnd c

/-- A digit. -/
def isDigitChar (c : Nat) : Bool := 48 ≤ c && c ≤ 57

/-- A letter, a digit, `_` or `-`. -/
def isNameChar (c : Nat) : Bool :=
  isDigitChar c || (65 ≤ c && c ≤ 90) || (97 ≤ c && c ≤ 122) || c = 95 || c = 45

/-- The value of a hexadecimal digit. -/
def hexValue? (c : Nat) : Option Nat := if c < 128 then Bytes.hexValue? c.toUInt8 else none

/-- The bytes of a row of characters. -/
def encode (chars : List Nat) : Bytes := chars.flatMap Utf8.encode

/-- A place in a text. -/
structure Cursor where
  /-- The characters that follow. -/
  rest : List Nat
  /-- How many characters went before. -/
  index : Nat := 0
  /-- How many lines went before. -/
  line : Nat := 0
  /-- How many characters of the line went before. -/
  column : Nat := 0
  /-- How many lines ended since the last character that is not blank. -/
  newlines : Nat := 0

namespace Cursor

/-- The character `k` places ahead. -/
def peek (c : Cursor) (k : Nat) : Nat := c.rest.getD k 0

/-- The next character. -/
def next (c : Cursor) : Nat := c.peek 0

/-- Goes over one character of the line. -/
def advance (c : Cursor) : Cursor :=
  match c.rest with
  | [] => c
  | char :: rest =>
    { c with
      rest
      index := c.index + 1
      column := c.column + 1
      newlines := if isBlank char then c.newlines else 0 }

/-- Goes over `n` characters of the line. -/
def skip (c : Cursor) : (n : Nat) → Cursor
  | 0 => c
  | n + 1 => c.advance.skip n

/-- The characters of the line that meet `p`, and the place after them. -/
def span (p : Nat → Bool) (c : Cursor) : List Nat × Cursor :=
  let taken := c.rest.takeWhile p
  (taken, c.skip taken.length)

/-- The place after the characters of the line that meet `p`. -/
def dropWhile (p : Nat → Bool) (c : Cursor) : Cursor := (c.span p).2

/-- The place at the end of the line. -/
def toLineEnd (c : Cursor) : Cursor := c.dropWhile fun char => !isBreakOrEnd char

/-- The number of characters that end the line here. -/
def breakWidth (c : Cursor) : Nat :=
  if c.next = 13 && c.peek 1 = 10 then 2 else if isBreak c.next then 1 else 0

/-- The line end here as it counts in a text, and the place after it. The separators U+2028 and U+2029
are kept, all other line ends count as a line feed. -/
def lineBreak (c : Cursor) : List Nat × Cursor :=
  let width := c.breakWidth
  if width = 0 then ([], c)
  else
    ([if c.next = 0x2028 || c.next = 0x2029 then c.next else 10],
      { rest := c.rest.drop width
        index := c.index + width
        line := c.line + 1
        column := 0
        newlines := c.newlines + 1 })

/-- The place after the line end here. -/
def nextLine (c : Cursor) : Cursor := c.lineBreak.2

/-- Whether `mark` stands three times at the start of a line and is followed by a gap. -/
def hasDocumentMark (c : Cursor) (mark : Nat) : Bool :=
  c.column = 0 && c.next = mark && c.peek 1 = mark && c.peek 2 = mark && isGap (c.peek 3)

/-- Whether a document starts (`---`) or ends (`...`) here. -/
def atDocumentMark (c : Cursor) : Bool := c.hasDocumentMark 45 || c.hasDocumentMark 46

end Cursor

end BuildScript.Yaml
