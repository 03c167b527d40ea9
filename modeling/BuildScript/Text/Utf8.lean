import BuildScript.Text.Bytes

/-!
# UTF-8 inside byte texts

A byte text is read from left to right as a row of pieces: a piece is one well-formed UTF-8
character, or a single stray byte where no character starts.

* `Utf8.first?`: the character at the start of a text.
* `Utf8.pieces`: the whole text as pieces; their bytes in a row are the text again.
* `Utf8.valid`: no piece is a stray byte.
* `Utf8.encode`: the bytes of a code point.
-/

namespace BuildScript.Utf8

/-- A continuation byte. -/
def isTail (b : UInt8) : Bool := 0x80 ≤ b && b ≤ 0xBF

/-- The six bits that a continuation byte carries. -/
def tailBits (b : UInt8) : Nat := b.toNat % 64

/-- The least second byte after the lead byte `b`: it rules out longer forms than needed. -/
def secondLow (b : UInt8) : UInt8 := if b = 0xE0 then 0xA0 else if b = 0xF0 then 0x90 else 0x80

/-- The greatest second byte after the lead byte `b`: it rules out surrogates and code points above
U+10FFFF. -/
def secondHigh (b : UInt8) : UInt8 := if b = 0xED then 0x9F else if b = 0xF4 then 0x8F else 0xBF

/-- The character at the start of a text: its code point and its number of bytes. -/
def first? : Bytes → Option (Nat × Nat)
  | [] => none
  | b0 :: rest =>
    if b0 < 0x80 then some (b0.toNat, 1)
    else if b0 < 0xC2 then none
    else if b0 < 0xE0 then
      match rest with
      | b1 :: _ => if isTail b1 then some (b0.toNat % 32 * 64 + tailBits b1, 2) else none
      | [] => none
    else if b0 < 0xF0 then
      match rest with
      | b1 :: b2 :: _ =>
        if secondLow b0 ≤ b1 && b1 ≤ secondHigh b0 && isTail b2 then
          some ((b0.toNat % 16 * 64 + tailBits b1) * 64 + tailBits b2, 3)
        else none
      | _ => none
    else if b0 < 0xF5 then
      match rest with
      | b1 :: b2 :: b3 :: _ =>
        if secondLow b0 ≤ b1 && b1 ≤ secondHigh b0 && isTail b2 && isTail b3 then
          some (((b0.toNat % 8 * 64 + tailBits b1) * 64 + tailBits b2) * 64 + tailBits b3, 4)
        else none
      | _ => none
    else none

/-- One character of a text, or one stray byte. -/
structure Piece where
  /-- The bytes of the piece. -/
  raw : Bytes
  /-- The code point, and nothing for a stray byte. -/
  scalar? : Option Nat
  deriving Repr, DecidableEq

/-- The pieces of a text whose first `skip` bytes belong to a piece already taken. -/
def piecesFrom : (skip : Nat) → Bytes → List Piece
  | _, [] => []
  | skip + 1, _ :: rest => piecesFrom skip rest
  | 0, b :: rest =>
    match first? (b :: rest) with
    | some (c, width) => ⟨(b :: rest).take width, some c⟩ :: piecesFrom (width - 1) rest
    | none => ⟨[b], none⟩ :: piecesFrom 0 rest

/-- A text as characters and stray bytes, from left to right. -/
def pieces (s : Bytes) : List Piece := piecesFrom 0 s

/-- A text is valid when it has no stray byte. -/
def valid (s : Bytes) : Bool := (pieces s).all fun p => p.scalar?.isSome

/-- The bytes of a code point. -/
def encode (n : Nat) : Bytes :=
  if n < 0x80 then [n.toUInt8]
  else if n < 0x800 then [(0xC0 + n / 64).toUInt8, (0x80 + n % 64).toUInt8]
  else if n < 0x10000 then
    [(0xE0 + n / 4096).toUInt8, (0x80 + n / 64 % 64).toUInt8, (0x80 + n % 64).toUInt8]
  else
    [(0xF0 + n / 262144).toUInt8, (0x80 + n / 4096 % 64).toUInt8, (0x80 + n / 64 % 64).toUInt8,
      (0x80 + n % 64).toUInt8]

/-- The replacement character U+FFFD. -/
def replacement : Bytes := [0xEF, 0xBF, 0xBD]

/-- A text with each stray byte replaced by U+FFFD. -/
def sanitize (s : Bytes) : Bytes :=
  (pieces s).flatMap fun p => if p.scalar?.isSome then p.raw else replacement

/-- The code points of a valid text. -/
def scalars? (s : Bytes) : Option (List Nat) := (pieces s).mapM Piece.scalar?

end BuildScript.Utf8
