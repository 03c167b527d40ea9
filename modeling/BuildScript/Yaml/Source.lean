import BuildScript.Text.Utf16
import BuildScript.Text.Utf8

/-!
# The characters of a YAML text

A text is UTF-8, or UTF-16 if it starts with a byte order mark that says so. It is taken in block by
block, and a block with something that is no character, or a character that may not stand in a text,
cannot be used. So a text is given as its characters up to the first such block.

* `Source.ofBytes`: the characters of a text.
-/

namespace BuildScript.Yaml

/-- The characters of a text that can be used. -/
structure Source where
  /-- The characters up to the first block that cannot be used. -/
  chars : List Nat
  /-- Whether that is the whole text. -/
  complete : Bool

namespace Source

/-- The number of bytes in a block. -/
def blockSize : Nat := 512

/-- The characters that may stand in a text: no control characters, apart from tabs and line ends. -/
def isAllowed (n : Nat) : Bool :=
  n = 0x09 || n = 0x0A || n = 0x0D || (0x20 ≤ n && n ≤ 0x7E) || n = 0x85
    || (0xA0 ≤ n && n ≤ 0xD7FF) || (0xE000 ≤ n && n ≤ 0xFFFD) || (0x10000 ≤ n && n ≤ 0x10FFFF)

/-- The encoding that the first bytes of a text tell: the characters with their widths, and the width
of the mark. -/
def decode (s : Bytes) : List (Option Nat × Nat) × Nat :=
  match s with
  | 0xFF :: 0xFE :: rest => (Utf16.decode false rest, 2)
  | 0xFE :: 0xFF :: rest => (Utf16.decode true rest, 2)
  | 0xEF :: 0xBB :: 0xBF :: rest =>
    ((Utf8.pieces rest).map fun p => (p.scalar?, p.raw.length), 3)
  | s => ((Utf8.pieces s).map fun p => (p.scalar?, p.raw.length), 0)

/-- The place of the first thing that may not stand in a text. -/
def firstBad? (offset : Nat) : List (Option Nat × Nat) → Option Nat
  | [] => none
  | (some c, width) :: rest => if isAllowed c then firstBad? (offset + width) rest else some offset
  | (none, _) :: _ => some offset

/-- The characters that start before a place. -/
def upTo (limit offset : Nat) : List (Option Nat × Nat) → List Nat
  | [] => []
  | (c?, width) :: rest =>
    if limit ≤ offset then [] else c?.getD 0 :: upTo limit (offset + width) rest

/-- The characters of a text. -/
def ofBytes (s : Bytes) : Source :=
  let (chars, start) := decode s
  match firstBad? start chars with
  | none => ⟨chars.map fun (c?, _) => c?.getD 0, true⟩
  | some bad => ⟨upTo (bad / blockSize * blockSize) start chars, false⟩

end Source

end BuildScript.Yaml
