import BuildScript.Yaml.Cursor

/-!
# Tokens

* `Token`: what a YAML text is made of.
* `Token.anchorName?`, `Token.tag?`, `Token.directive?`: the tokens that start with `&`, `*`, `!` and
  `%`.
-/

namespace BuildScript.Yaml

/-- A part of a text with a meaning of its own. -/
inductive Token where
  | streamEnd
  /-- A directive that names the version of the language. -/
  | version (major minor : Nat)
  /-- A directive that lets a handle stand for the start of tags. -/
  | tagDirective (handle start : Bytes)
  | documentStart
  | documentEnd
  /-- The start of a collection that is given by indentation. -/
  | blockSequenceStart
  | blockMappingStart
  /-- The end of a collection that is given by indentation. -/
  | blockEnd
  | flowSequenceStart
  | flowSequenceEnd
  | flowMappingStart
  | flowMappingEnd
  | blockEntry
  | flowEntry
  | key
  | value
  | mention (name : Bytes)
  | anchor (name : Bytes)
  | tag (handle suffix : Bytes)
  /-- A scalar; `plain` tells that it is not between quotes and no block. -/
  | scalar (text : Bytes) (plain : Bool)
  deriving Repr, DecidableEq

namespace Token

/-- The characters that may follow a name directly. -/
def endsName (c : Nat) : Bool :=
  isGap c || c = 63 || c = 58 || c = 44 || c = 93 || c = 125 || c = 37 || c = 64 || c = 96

/-- The name after `&` or `*`. -/
def anchorName? (c : Cursor) : Option (Bytes × Cursor) :=
  let (name, c) := c.advance.span isNameChar
  if name = [] || !endsName c.next then none else some (encode name, c)

/-- The characters of tags that stand for themselves. -/
def isUriChar (c : Nat) : Bool :=
  isNameChar c || c = 59 || c = 47 || c = 63 || c = 58 || c = 64 || c = 38 || c = 61 || c = 43
    || c = 36 || c = 44 || c = 46 || c = 33 || c = 126 || c = 42 || c = 39 || c = 40 || c = 41
    || c = 91 || c = 93

/-- The number of bytes of a character that starts with this byte. -/
def octetWidth? (b : Nat) : Option Nat :=
  if b < 0x80 then some 1
  else if 0xC0 ≤ b && b < 0xE0 then some 2
  else if 0xE0 ≤ b && b < 0xF0 then some 3
  else if 0xF0 ≤ b && b < 0xF8 then some 4
  else none

/-- A byte written as `%` with two hexadecimal digits. -/
def octet? (c : Cursor) : Option Nat := do
  if c.next = 37 then
    let high ← hexValue? (c.peek 1)
    let low ← hexValue? (c.peek 2)
    return 16 * high + low
  else none

/-- The further bytes of a character, each written with `%`. -/
def tailOctets? : (count : Nat) → Cursor → Option (Bytes × Cursor)
  | 0, c => some ([], c)
  | count + 1, c =>
    match octet? c with
    | some b =>
      if 0x80 ≤ b && b < 0xC0 then
        (tailOctets? count (c.skip 3)).map fun (more, c) => (b.toUInt8 :: more, c)
      else none
    | none => none

/-- A character whose bytes are written with `%`. -/
def uriEscape? (c : Cursor) : Option (Bytes × Cursor) := do
  let b ← octet? c
  let width ← octetWidth? b
  let (more, c) ← tailOctets? (width - 1) (c.skip 3)
  return (b.toUInt8 :: more, c)

/-- The rest of a tag. The first argument bounds the number of steps. -/
def uri? : (limit : Nat) → Cursor → Option (Bytes × Cursor)
  | 0, c => some ([], c)
  | limit + 1, c =>
    if c.next = 37 then
      match uriEscape? c with
      | none => none
      | some (b, c) => (uri? limit c).map fun (more, c) => (b ++ more, c)
    else if isUriChar c.next then
      (uri? limit c.advance).map fun (more, rest) => (Utf8.encode c.next ++ more, rest)
    else some ([], c)

/-- A tag that may not be empty. -/
def someUri? (c : Cursor) : Option (Bytes × Cursor) :=
  match uri? c.rest.length c with
  | some (uri, c) => if uri = [] then none else some (uri, c)
  | none => none

/-- The handle of a tag: `!`, or a name between two `!`. Without the second `!` it is only the start
of a tag. -/
def handle (c : Cursor) : Bytes × Cursor :=
  let (name, c) := c.advance.span isNameChar
  if c.next = 33 then (33 :: encode name ++ [33], c.advance) else (33 :: encode name, c)

/-- A tag: `!<...>`, `!handle!suffix` or `!suffix`. It has to be followed by a gap. -/
def tag? (c : Cursor) : Option (Token × Cursor) := do
  let (token, c) ←
    if c.peek 1 = 60 then do
      let (uri, c) ← someUri? (c.skip 2)
      if c.next = 62 then some (tag [] uri, c.advance) else none
    else
      let (head, c) := handle c
      if 1 < head.length && head.getLast? = some 33 then do
        let (suffix, c) ← someUri? c
        some (tag head suffix, c)
      else do
        let (more, c) ← uri? c.rest.length c
        let suffix := head.tail ++ more
        some (if suffix = [] then tag [] [33] else tag [33] suffix, c)
  if isGap c.next then some (token, c) else none

/-- A version number of one or two digits. -/
def versionNumber? (c : Cursor) : Option (Nat × Cursor) :=
  let (digits, c) := c.span isDigitChar
  if digits.length = 1 || digits.length = 2 then
    some (digits.foldl (fun n d => 10 * n + (d - 48)) 0, c)
  else none

/-- The value of a version directive. -/
def versionDirective? (c : Cursor) : Option (Token × Cursor) := do
  let (major, c) ← versionNumber? (c.dropWhile isBlank)
  if c.next = 46 then
    let (minor, c) ← versionNumber? c.advance
    return (version major minor, c)
  else none

/-- The value of a tag directive. -/
def tagDirective? (c : Cursor) : Option (Token × Cursor) := do
  let c := c.dropWhile isBlank
  if c.next != 33 then none
  else
    let (head, c) := handle c
    if head.getLast? != some 33 || !isBlank c.next then none
    else
      let (start, c) ← someUri? (c.dropWhile isBlank)
      if isGap c.next then some (tagDirective head start, c) else none

/-- A directive with the rest of its line. -/
def directive? (c : Cursor) : Option (Token × Cursor) := do
  let (name, c) := c.advance.span isNameChar
  if name = [] || !isGap c.next then none
  else
    let (token, c) ←
      if encode name = bytes "YAML" then versionDirective? c
      else if encode name = bytes "TAG" then tagDirective? c
      else none
    let c := c.dropWhile isBlank
    let c := if c.next = 35 then c.toLineEnd else c
    if isBreakOrEnd c.next then some (token, c.nextLine) else none

end Token

end BuildScript.Yaml
