import BuildScript.Yaml.Scalar
import BuildScript.Yaml.Token

/-!
# The tokens of a YAML text

Tokens are taken from a text as they are needed, but three at a time: a token can be looked at only
when the two after it have been found. A scalar, an alias or a collection between brackets may turn
out to be a key when a colon follows it on the same line; the tokens that say so are then put in front
of it, so it is held back until that is settled.

* `Lexer.ofChars`: the start of a text.
* `Lexer.peek?`: the next token.
* `Lexer.skip`: what follows it.
-/

namespace BuildScript.Yaml

/-- A token that may turn out to be a key. -/
structure KeyCandidate where
  /-- Nothing else than a key may stand in its place. -/
  required : Bool
  /-- The number of the token. -/
  number : Nat
  index : Nat
  line : Nat
  column : Nat

/-- What is known at a place in a text. -/
structure Lexer where
  cursor : Cursor
  /-- The tokens found and not yet taken. -/
  queue : List Token := []
  /-- How many tokens were taken. -/
  taken : Nat := 0
  /-- What may turn out to be a key, for each open bracket and outside of all; innermost first. -/
  candidates : List (Option KeyCandidate) := [none]
  /-- The column of the innermost collection given by indentation; `-1` outside of all. -/
  indent : Int := -1
  /-- The columns of the collections around it. -/
  outer : List Int := []
  /-- Whether a key may start here. -/
  keyAllowed : Bool := true

namespace Lexer

/-- The deepest nesting of brackets, and of collections given by indentation. -/
def maxDepth : Nat := 10000

/-- The greatest distance between the start of a key and its colon. -/
def maxKeyLength : Nat := 1024

/-- How far a comment is looked for. -/
def commentReach : Nat := 512

/-- The start of a text. -/
def ofChars (chars : List Nat) : Lexer := { cursor := { rest := chars } }

/-- How many brackets are open. -/
def flowDepth (l : Lexer) : Nat := l.candidates.length - 1

/-- Whether the place is between brackets. -/
def inFlow (l : Lexer) : Bool := 0 < l.flowDepth

/-- Adds a token. -/
def push (l : Lexer) (token : Token) : Lexer := { l with queue := l.queue ++ [token] }

/-- Puts a token in front of the one with a number. -/
def insertAt (l : Lexer) (number : Nat) (token : Token) : Lexer :=
  let before := number - l.taken
  { l with queue := l.queue.take before ++ token :: l.queue.drop before }

/-! ## Keys -/

/-- Whether a candidate can no longer be a key: the line is over, or the colon is too far away. -/
def isStale (l : Lexer) (k : KeyCandidate) : Bool :=
  k.line < l.cursor.line || k.index + maxKeyLength < l.cursor.index

/-- Gives up the innermost candidate; an error if a key is required there. -/
def dropCandidate? (l : Lexer) : Option Lexer :=
  match l.candidates with
  | some k :: rest => if k.required then none else some { l with candidates := none :: rest }
  | _ => some l

/-- Remembers that the next token may turn out to be a key. -/
def saveCandidate? (l : Lexer) : Option Lexer :=
  if !l.keyAllowed then some l
  else do
    let c := l.cursor
    let k : KeyCandidate :=
      { required := !l.inFlow && l.indent = c.column
        number := l.taken + l.queue.length
        index := c.index, line := c.line, column := c.column }
    let l ← l.dropCandidate?
    return { l with candidates := some k :: l.candidates.tail }

/-- Whether the next token is held back because it may turn out to be a key, and the candidates that
are left. -/
def heldBack? (l : Lexer) : Option (Bool × Lexer) :=
  match l.candidates.find? fun k? => k?.any fun k => k.number = l.taken with
  | some (some k) =>
    if !l.isStale k then some (true, l)
    else if k.required then none
    else
      some (false,
        { l with
          candidates := l.candidates.map fun k? =>
            if k?.any fun k => k.number = l.taken then none else k? })
  | _ => some (false, l)

/-! ## Indentation -/

/-- Opens a collection at a column, unless one is open there already. Its token is put in front of the
token with the number `number?`, or at the end. -/
def open? (l : Lexer) (column : Nat) (number? : Option Nat) (token : Token) : Option Lexer :=
  if l.inFlow || column ≤ l.indent then some l
  else if maxDepth ≤ l.outer.length then none
  else
    let l := { l with outer := l.indent :: l.outer, indent := column }
    some (match number? with
      | some number => l.insertAt number token
      | none => l.push token)

/-- Closes the collections to the right of a column. -/
def close (column : Int) : (outer : List Int) → Lexer → Lexer
  | [], l => l
  | above :: outer, l =>
    if l.indent ≤ column then l
    else close column outer { l.push .blockEnd with indent := above, outer }

/-- Closes the collections to the right of a column, outside of brackets. -/
def closeTo (l : Lexer) (column : Int) : Lexer := if l.inFlow then l else close column l.outer l

/-! ## Blanks and comments -/

/-- The distance from the end of a line to a comment, if only blanks and line ends are in between. -/
def commentAhead? (chars : List Nat) : Option Nat :=
  let skipped := (chars.take commentReach).takeWhile fun c => isBlank c || c = 13 || c = 10
  let distance := skipped.length
  if 0 < distance && distance < commentReach && chars.getD distance 0 = 35 then some distance
  else none

/-- Goes on until `target` characters are read, across lines. The first argument bounds the number of
steps. -/
def reach : (limit target : Nat) → Cursor → Cursor
  | 0, _, c => c
  | limit + 1, target, c =>
    if target ≤ c.index then c
    else reach limit target (if isBreak c.next then c.nextLine else c.advance)

/-- Goes over a comment and those that follow it on lines of their own. -/
def comments : (limit : Nat) → Cursor → Cursor
  | 0, c => c
  | limit + 1, c =>
    let c := c.toLineEnd
    match commentAhead? c.rest with
    | some distance => comments limit (reach distance (c.index + distance) c)
    | none => c

/-- Goes over blanks, comments and line ends. Outside of brackets a key may start on each new line, and
there a tab is no blank. -/
def toToken : (limit : Nat) → Lexer → Lexer
  | 0, l => l
  | limit + 1, l =>
    let c := l.cursor
    let c := if c.column = 0 && c.next = 0xFEFF then c.advance else c
    let c := c.dropWhile fun char => char = 32 || (char = 9 && (l.inFlow || !l.keyAllowed))
    let c := if c.next = 35 then comments c.rest.length c else c
    if isBreak c.next then
      toToken limit { l with cursor := c.nextLine, keyAllowed := l.keyAllowed || !l.inFlow }
    else { l with cursor := c }

/-- Goes over a comment on the line of a token. -/
def lineComment (c : Cursor) : Cursor :=
  if 0 < c.newlines then c
  else
    let blanks := (c.rest.takeWhile isBlank).length
    if blanks < commentReach && c.peek blanks = 35 then c.toLineEnd else c

/-! ## Tokens -/

/-- Adds a token of `width` characters. -/
def pushMark (l : Lexer) (token : Token) (width : Nat) : Lexer :=
  { l with cursor := l.cursor.skip width }.push token

/-- The end of the text. The last line counts as ended. -/
def streamEnd? (l : Lexer) : Option Lexer := do
  let c := l.cursor
  let c := if c.column = 0 then c else { c with column := 0, line := c.line + 1 }
  let l ← ({ l with cursor := c }.closeTo (-1)).dropCandidate?
  return { l with keyAllowed := false }.push .streamEnd

/-- The mark at which a document starts or ends. -/
def documentMark? (l : Lexer) (token : Token) : Option Lexer := do
  let l ← (l.closeTo (-1)).dropCandidate?
  return { l with keyAllowed := false }.pushMark token 3

/-- A directive. -/
def directive? (l : Lexer) : Option Lexer := do
  let l ← (l.closeTo (-1)).dropCandidate?
  let (token, cursor) ← Token.directive? l.cursor
  return { l with keyAllowed := false, cursor }.push token

/-- An opening bracket. -/
def flowStart? (l : Lexer) (token : Token) : Option Lexer := do
  let l ← l.saveCandidate?
  if maxDepth ≤ l.flowDepth then none
  else return { l with candidates := none :: l.candidates, keyAllowed := true }.pushMark token 1

/-- A closing bracket. -/
def flowEnd? (l : Lexer) (token : Token) : Option Lexer := do
  let l ← l.dropCandidate?
  let candidates := if l.inFlow then l.candidates.tail else l.candidates
  return { l with candidates, keyAllowed := false }.pushMark token 1

/-- A comma between brackets. -/
def flowEntry? (l : Lexer) : Option Lexer := do
  let l ← l.dropCandidate?
  return { l with keyAllowed := true }.pushMark .flowEntry 1

/-- A dash in front of an item. -/
def blockEntry? (l : Lexer) : Option Lexer := do
  if !l.inFlow && !l.keyAllowed then none
  else
    let l ← l.open? l.cursor.column none .blockSequenceStart
    let l ← l.dropCandidate?
    return { l with keyAllowed := true }.pushMark .blockEntry 1

/-- A question mark in front of a key. -/
def key? (l : Lexer) : Option Lexer := do
  if !l.inFlow && !l.keyAllowed then none
  else
    let l ← l.open? l.cursor.column none .blockMappingStart
    let l ← l.dropCandidate?
    return { l with keyAllowed := !l.inFlow }.pushMark .key 1

/-- A colon after a key that was marked by a question mark, or that is empty. -/
def valueAlone? (l : Lexer) : Option Lexer := do
  if !l.inFlow && !l.keyAllowed then none
  else
    let l ← l.open? l.cursor.column none .blockMappingStart
    return { l with keyAllowed := !l.inFlow }.pushMark .value 1

/-- A colon: what precedes it on the line turns out to be a key. -/
def value? (l : Lexer) : Option Lexer :=
  match l.candidates with
  | some k :: rest =>
    if !l.isStale k then do
      let l := l.insertAt k.number .key
      let l ← l.open? k.column (some k.number) .blockMappingStart
      return { l with candidates := none :: rest, keyAllowed := false }.pushMark .value 1
    else if k.required then none
    else { l with candidates := none :: rest }.valueAlone?
  | _ => l.valueAlone?

/-- A token that may turn out to be a key, read by `read`. -/
def candidate? (l : Lexer) (read : Cursor → Option (Token × Cursor)) : Option Lexer := do
  let l ← l.saveCandidate?
  let (token, cursor) ← read l.cursor
  return { l with keyAllowed := false, cursor }.push token

/-- A plain scalar. A key may follow it if it ends with its line. -/
def plain? (l : Lexer) : Option Lexer := do
  let l ← l.saveCandidate?
  let (text, cursor, ended) ← Scalar.plain? l.inFlow (l.indent + 1).toNat l.cursor
  return { l with keyAllowed := ended, cursor }.push (.scalar text true)

/-- A block scalar. -/
def block? (l : Lexer) (literal : Bool) : Option Lexer := do
  let l ← l.dropCandidate?
  let (text, cursor) ← Scalar.block? literal l.indent l.cursor
  return { l with keyAllowed := true, cursor }.push (.scalar text false)

/-- The characters that have a meaning of their own at the start of a token. -/
def isIndicator (c : Nat) : Bool :=
  c = 45 || c = 63 || c = 58 || c = 44 || c = 91 || c = 93 || c = 123 || c = 125 || c = 35 || c = 38
    || c = 42 || c = 33 || c = 124 || c = 62 || c = 39 || c = 34 || c = 37 || c = 64 || c = 96

/-- Whether a plain scalar starts here. -/
def startsPlain (l : Lexer) : Bool :=
  let first := l.cursor.next
  let second := l.cursor.peek 1
  !(isGap first || isIndicator first) || (first = 45 && !isBlank second)
    || (!l.inFlow && (first = 63 || first = 58) && !isGap second)

/-- The token here, apart from directives and the marks of documents. -/
def content? (l : Lexer) : Option Lexer :=
  let first := l.cursor.next
  let gapNext := isGap (l.cursor.peek 1)
  if first = 91 then l.flowStart? .flowSequenceStart
  else if first = 123 then l.flowStart? .flowMappingStart
  else if first = 93 then l.flowEnd? .flowSequenceEnd
  else if first = 125 then l.flowEnd? .flowMappingEnd
  else if first = 44 then l.flowEntry?
  else if first = 45 && gapNext then l.blockEntry?
  else if first = 63 && (l.inFlow || gapNext) then l.key?
  else if first = 58 && (l.inFlow || gapNext) then l.value?
  else if first = 42 then
    l.candidate? fun c => (Token.anchorName? c).map fun (name, c) => (.mention name, c)
  else if first = 38 then
    l.candidate? fun c => (Token.anchorName? c).map fun (name, c) => (.anchor name, c)
  else if first = 33 then l.candidate? Token.tag?
  else if first = 124 && !l.inFlow then l.block? true
  else if first = 62 && !l.inFlow then l.block? false
  else if first = 39 then
    l.candidate? fun c => (Scalar.single? c).map fun (text, c) => (.scalar text false, c)
  else if first = 34 then
    l.candidate? fun c => (Scalar.double? c).map fun (text, c) => (.scalar text false, c)
  else if l.startsPlain then l.plain?
  else none

/-- Finds the next token. A comment on the line of a token belongs to it, but not after a dash. -/
def fetch? (l : Lexer) : Option Lexer :=
  let l := toToken (l.cursor.rest.length + 1) l
  let l := l.closeTo l.cursor.column
  let c := l.cursor
  if c.next = 0 then l.streamEnd?
  else if c.column = 0 && c.next = 37 then l.directive?
  else if c.hasDocumentMark 45 then l.documentMark? .documentStart
  else if c.hasDocumentMark 46 then l.documentMark? .documentEnd
  else
    l.content?.map fun l =>
      if l.queue.getLast? = some .blockEntry then l else { l with cursor := lineComment l.cursor }

/-- Finds tokens until the next one can be looked at. -/
def fill? : (limit : Nat) → Lexer → Option Lexer
  | 0, _ => none
  | limit + 1, l =>
    if l.queue.length < 3 then
      match l.fetch? with
      | none => none
      | some l => fill? limit l
    else
      match l.heldBack? with
      | none => none
      | some (false, l) => some l
      | some (true, l) =>
        match l.fetch? with
        | none => none
        | some l => fill? limit l

/-- The next token, and what is known then. -/
def peek? (l : Lexer) : Option (Token × Lexer) := do
  let l ← fill? (l.cursor.rest.length + 8) l
  let token ← l.queue.head?
  return (token, l)

/-- What follows the next token. -/
def skip (l : Lexer) : Lexer := { l with queue := l.queue.tail, taken := l.taken + 1 }

end Lexer

end BuildScript.Yaml
