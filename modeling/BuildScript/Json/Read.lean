import BuildScript.Job.Document
import BuildScript.Text.Utf16
import BuildScript.Text.Utf8

/-!
# Reading JSON

Only the first value of a text is read; what follows is not looked at. Numbers are kept as they are
written, the fields of an object are kept in their order with all that have the same key, and what
is not valid UTF-8 reads as U+FFFD.

* `Json.read`: the first value of a text.
* `Json.readWhole`: the value of a text that holds nothing else.
-/

namespace BuildScript.Json

/-- Why a text cannot be read. -/
inductive Fault where
  /-- It holds no value at all. -/
  | empty
  /-- It holds something else than a value, or a part of one. -/
  | malformed
  deriving Repr, DecidableEq

/-- The deepest nesting of arrays and objects. -/
def maxDepth : Nat := 10000

/-- White space between tokens. -/
def isBlank (b : UInt8) : Bool := b = 32 || b = 9 || b = 10 || b = 13

/-- A text without the white space at its start. -/
def skipBlank (s : Bytes) : Bytes := s.dropWhile isBlank

/-- The number written with four hexadecimal digits. -/
def hex4? (a b c d : UInt8) : Option Nat := do
  let a ← Bytes.hexValue? a
  let b ← Bytes.hexValue? b
  let c ← Bytes.hexValue? c
  let d ← Bytes.hexValue? d
  return ((a * 16 + b) * 16 + c) * 16 + d

/-- The character of an escape of one letter. -/
def shortEscape? (b : UInt8) : Option UInt8 :=
  if b = 34 || b = 92 || b = 47 then some b
  else if b = 98 then some 8
  else if b = 102 then some 12
  else if b = 110 then some 10
  else if b = 114 then some 13
  else if b = 116 then some 9
  else none

/-- What half a character alone stands for. -/
def lone (high? : Option Nat) : Bytes := if high?.isSome then Utf8.replacement else []

/-- What an escape with the number `n` adds after the first half `high?` of a character. -/
def escaped (high? : Option Nat) (n : Nat) : Bytes :=
  if Utf16.isHigh n then lone high?
  else if Utf16.isLow n then
    match high? with
    | some high => Utf8.encode (Utf16.combine high n)
    | none => Utf8.replacement
  else lone high? ++ Utf8.encode n

/-- A text up to the quote that ends it, with its escapes worked off, and what follows the quote.
`high?` is the first half of a character, if that was just read. -/
def stringBody : (high? : Option Nat) → Bytes → Option (Bytes × Bytes)
  | _, [] => none
  | high?, 34 :: rest => some (lone high?, rest)
  | high?, 92 :: 117 :: a :: b :: c :: d :: rest =>
    match hex4? a b c d with
    | none => none
    | some n =>
      (stringBody (if Utf16.isHigh n then some n else none) rest).map fun (s, tail) =>
        (escaped high? n ++ s, tail)
  | high?, 92 :: b :: rest =>
    match shortEscape? b with
    | none => none
    | some c => (stringBody none rest).map fun (s, tail) => (lone high? ++ c :: s, tail)
  | high?, b :: rest =>
    if b < 32 || b = 92 then none
    else (stringBody none rest).map fun (s, tail) => (lone high? ++ b :: s, tail)

/-- A text after its opening quote. -/
def string? (s : Bytes) : Option (Bytes × Bytes) :=
  (stringBody none s).map fun (body, rest) => (Utf8.sanitize body, rest)

/-- The digits at the start of a text, at least one, and what follows them. -/
def digits? (s : Bytes) : Option (Bytes × Bytes) :=
  let head := s.takeWhile Bytes.isDigit
  if head = [] then none else some (head, s.dropWhile Bytes.isDigit)

/-- The whole part of a number: a zero, or digits that do not start with one. -/
def whole? : Bytes → Option (Bytes × Bytes)
  | 48 :: rest => some ([48], rest)
  | s => digits? s

/-- The fraction of a number, which may be missing. -/
def fraction? : Bytes → Option (Bytes × Bytes)
  | 46 :: rest => (digits? rest).map fun (head, tail) => (46 :: head, tail)
  | s => some ([], s)

/-- The exponent of a number, which may be missing. -/
def exponent? : Bytes → Option (Bytes × Bytes)
  | e :: sign :: rest =>
    if e = 101 || e = 69 then
      if sign = 43 || sign = 45 then
        (digits? rest).map fun (head, tail) => (e :: sign :: head, tail)
      else (digits? (sign :: rest)).map fun (head, tail) => (e :: head, tail)
    else some ([], e :: sign :: rest)
  | [e] => if e = 101 || e = 69 then none else some ([], [e])
  | [] => some ([], [])

/-- The longest number at the start of a text, and what follows it. -/
def number? (s : Bytes) : Option (Bytes × Bytes) := do
  let (sign, s) : Bytes × Bytes :=
    match s with
    | 45 :: rest => ([45], rest)
    | s => ([], s)
  let (whole, s) ← whole? s
  let (fraction, s) ← fraction? s
  let (exponent, s) ← exponent? s
  return (sign ++ whole ++ fraction ++ exponent, s)

/-- A word that has to be at the start of a text. -/
def word? (word : String) (value : Document) (s : Bytes) : Option (Document × Bytes) :=
  if Bytes.startsWith (bytes word) s then some (value, s.drop (bytes word).length) else none

mutual
/-- The value at the start of a text, inside `depth` arrays and objects. The first argument bounds
the number of steps. -/
def value? : (limit : Nat) → (depth : Nat) → Bytes → Option (Document × Bytes)
  | 0, _, _ => none
  | limit + 1, depth, s =>
    match skipBlank s with
    | 34 :: rest => (string? rest).map fun (text, rest) => (.text text, rest)
    | 91 :: rest =>
      if maxDepth ≤ depth then none
      else
        match skipBlank rest with
        | 93 :: rest => some (.list [], rest)
        | rest => (items? limit (depth + 1) rest).map fun (items, rest) => (.list items, rest)
    | 123 :: rest =>
      if maxDepth ≤ depth then none
      else
        match skipBlank rest with
        | 125 :: rest => some (.object [], rest)
        | rest =>
          (members? limit (depth + 1) rest).map fun (fields, rest) => (.object fields, rest)
    | 110 :: rest => word? "null" .null (110 :: rest)
    | 116 :: rest => word? "true" (.bool true) (116 :: rest)
    | 102 :: rest => word? "false" (.bool false) (102 :: rest)
    | rest => (number? rest).map fun (text, rest) => (.numeral text, rest)
/-- The values of an array up to its end. -/
def items? : (limit : Nat) → (depth : Nat) → Bytes → Option (List Document × Bytes)
  | 0, _, _ => none
  | limit + 1, depth, s =>
    match value? limit depth s with
    | none => none
    | some (item, rest) =>
      match skipBlank rest with
      | 44 :: rest => (items? limit depth rest).map fun (items, rest) => (item :: items, rest)
      | 93 :: rest => some ([item], rest)
      | _ => none
/-- The fields of an object up to its end. -/
def members? : (limit : Nat) → (depth : Nat) → Bytes → Option (List (Bytes × Document) × Bytes)
  | 0, _, _ => none
  | limit + 1, depth, s =>
    match skipBlank s with
    | 34 :: rest =>
      match string? rest with
      | none => none
      | some (key, rest) =>
        match skipBlank rest with
        | 58 :: rest =>
          match value? limit depth rest with
          | none => none
          | some (value, rest) =>
            match skipBlank rest with
            | 44 :: rest =>
              (members? limit depth rest).map fun (fields, rest) => ((key, value) :: fields, rest)
            | 125 :: rest => some ([(key, value)], rest)
            | _ => none
        | _ => none
    | _ => none
end

/-- The first value of a text. -/
def read (s : Bytes) : Except Fault Document :=
  if skipBlank s = [] then .error .empty
  else
    match value? (2 * s.length + 2) 0 s with
    | some (value, _) => .ok value
    | none => .error .malformed

/-- The value of a text that holds nothing else. -/
def readWhole (s : Bytes) : Except Fault Document :=
  if skipBlank s = [] then .error .empty
  else
    match value? (2 * s.length + 2) 0 s with
    | some (value, rest) => if skipBlank rest = [] then .ok value else .error .malformed
    | none => .error .malformed

end BuildScript.Json
