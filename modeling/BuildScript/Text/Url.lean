import BuildScript.Text.Bytes

/-!
# Addresses

The parts of an address that matter for finding a file: the scheme, the path and the query.

* `Url.unescape?`: a text with its percent escapes worked off.
* `Url.parse?`: the parts of an address.
* `Url.parameter`: a value in a query.
-/

namespace BuildScript

/-- An address. -/
structure Url where
  /-- In small letters; empty if there is none. -/
  scheme : Bytes
  /-- The path as it is written. -/
  rawPath : Bytes
  /-- The path with its escapes worked off. -/
  path : Bytes
  query : Bytes
  deriving Repr, DecidableEq

namespace Url

/-- A text with its percent escapes worked off; each has to have two hexadecimal digits. -/
def unescape? : Bytes → Option Bytes
  | [] => some []
  | 37 :: a :: b :: rest =>
    match Bytes.hexValue? a, Bytes.hexValue? b with
    | some x, some y => (unescape? rest).map ((16 * x + y).toUInt8 :: ·)
    | _, _ => none
  | b :: rest => if b = 37 then none else (unescape? rest).map (b :: ·)

/-- Whether a byte is a letter of ASCII. -/
def isLetter (b : UInt8) : Bool := (65 ≤ b && b ≤ 90) || (97 ≤ b && b ≤ 122)

/-- Whether a byte stands for itself in a path. -/
def isPlain (b : UInt8) : Bool :=
  isLetter b || Bytes.isDigit b || (bytes "-_.~$&+,/:;=@").contains b

/-- The upper-case hexadecimal digit of a number below sixteen. -/
def upperDigit (n : Nat) : UInt8 := if n < 10 then (48 + n).toUInt8 else (55 + n).toUInt8

/-- The usual written form of a path. -/
def escapePath (s : Bytes) : Bytes :=
  s.flatMap fun b =>
    if isPlain b then [b] else [37, upperDigit (b.toNat / 16), upperDigit (b.toNat % 16)]

/-- The scheme of an address and what follows its colon. There is no scheme unless a letter is first,
then letters, digits, `+`, `-` or `.`; a colon at the very start is an error. -/
def splitScheme? (s : Bytes) : Option (Bytes × Bytes) :=
  let word := s.takeWhile fun b => isLetter b || Bytes.isDigit b || b = 43 || b = 45 || b = 46
  match s.drop word.length with
  | 58 :: rest =>
    match word with
    | [] => none
    | first :: _ => if isLetter first then some (Bytes.toLower word, rest) else some ([], s)
  | _ => some ([], s)

/-- What follows the host, if an address has one. -/
def dropHost (scheme rest : Bytes) : Bytes :=
  if Bytes.startsWith (bytes "//") rest
      && (scheme != [] || !Bytes.startsWith (bytes "///") rest) then
    (rest.drop 2).dropWhile (· != 47)
  else rest

/-- The parts of an address without a fragment. -/
def parseWhole? (s : Bytes) : Option Url := do
  if s.any fun b => b < 32 || b = 127 then none
  else
    let (scheme, rest) ← splitScheme? s
    let (rest, query?) := Bytes.cut 63 rest
    let query := query?.getD []
    if rest.head? != some 47 then
      if scheme != [] then return ⟨scheme, [], [], query⟩
      if (Bytes.cut 47 rest).1.contains 58 then none
    let rawPath := dropHost scheme rest
    return ⟨scheme, rawPath, ← unescape? rawPath, query⟩

/-- The parts of an address; a fragment is checked and dropped. -/
def parse? (s : Bytes) : Option Url := do
  let (whole, fragment?) := Bytes.cut 35 s
  let url ← parseWhole? whole
  let _ ← unescape? (fragment?.getD [])
  return url

/-- The path of the file that an address names: with its escapes worked off if the address is
written in the usual form, and as it is written otherwise. -/
def filePath (url : Url) : Bytes := if escapePath url.path = url.rawPath then url.path else url.rawPath

/-- The first value of a key in a query; empty if there is none. -/
def parameter (url : Url) (key : Bytes) : Bytes :=
  let decode (s : Bytes) : Option Bytes := unescape? (Bytes.replaceByte 43 32 s)
  let values := (Bytes.splitOn 38 url.query).filterMap fun part =>
    if part.contains 59 then none
    else
      let (name, value?) := Bytes.cut 61 part
      match decode name, decode (value?.getD []) with
      | some name, some value => if name = key then some value else none
      | _, _ => none
  values.headD []

end Url

end BuildScript
