import BuildScript.Yaml.Cursor

/-!
# Scalars as they are written

A scalar is written plainly, between quotes, or as an indented block. Each form has its own way to
take a text across lines.

* `Scalar.plain?`, `Scalar.single?`, `Scalar.double?`, `Scalar.block?`: the text of a scalar and the
  place after it.
-/

namespace BuildScript.Yaml.Scalar

/-- The blanks between two words: blanks on one line, or line ends. -/
structure Gap where
  /-- The blanks before the first line end. -/
  blanks : List Nat := []
  /-- The first line end, if there is one; empty if it was escaped. -/
  first? : Option (List Nat) := none
  /-- The line ends after the first one. -/
  more : List Nat := []

/-- What a gap stands for: a single line end folds to a blank, and of several the first is dropped. -/
def Gap.text (gap : Gap) : List Nat :=
  match gap.first? with
  | none => gap.blanks
  | some first =>
    if first = [10] then if gap.more = [] then [32] else gap.more else first ++ gap.more

/-- Reads a gap. A tab that stands for indentation, before the column `tabLimit`, is refused. The
first argument bounds the number of steps. -/
def gap? (tabLimit : Nat) : (limit : Nat) → Gap → Cursor → Option (Gap × Cursor)
  | 0, _, _ => none
  | limit + 1, gap, c =>
    if isBlank c.next then
      match gap.first? with
      | none => gap? tabLimit limit { gap with blanks := gap.blanks ++ [c.next] } c.advance
      | some _ =>
        if c.next = 9 && c.column < tabLimit then none else gap? tabLimit limit gap c.advance
    else if isBreak c.next then
      let (ended, after) := c.lineBreak
      match gap.first? with
      | none => gap? tabLimit limit { gap with blanks := [], first? := some ended } after
      | some _ => gap? tabLimit limit { gap with more := gap.more ++ ended } after
    else some (gap, c)

/-- The characters that end a plain scalar between brackets. -/
def isFlowEnd (c : Nat) : Bool :=
  c = 44 || c = 63 || c = 91 || c = 93 || c = 123 || c = 125

/-- The word at the start of a text: it ends at a gap and at a colon before a gap, and between brackets
also at a bracket, a comma or a question mark. -/
def word (inFlow : Bool) : List Nat → List Nat
  | [] => []
  | c :: rest =>
    if isGap c || (c = 58 && isGap (rest.headD 0)) || (inFlow && isFlowEnd c) then []
    else c :: word inFlow rest

/-- The words of a plain scalar, after a gap. `indent` is the column that its lines have to reach. The
last result tells whether the scalar is followed by the end of a line. -/
def plainWords? (inFlow : Bool) (indent : Nat) :
    (limit : Nat) → Gap → Cursor → Option (List Nat × Cursor × Bool)
  | 0, _, _ => none
  | limit + 1, gap, c =>
    let w := word inFlow c.rest
    if c.atDocumentMark || c.next = 35 || w = [] then some ([], c, gap.first?.isSome)
    else
      let joined := gap.text ++ w
      let c := c.skip w.length
      if !(isBlank c.next || isBreak c.next) then some (joined, c, false)
      else
        match gap? indent (c.rest.length + 1) {} c with
        | none => none
        | some (gap, c) =>
          if !inFlow && c.column < indent then some (joined, c, gap.first?.isSome)
          else
            (plainWords? inFlow indent limit gap c).map fun (chars, rest) => (joined ++ chars, rest)

/-- A plain scalar. -/
def plain? (inFlow : Bool) (indent : Nat) (c : Cursor) : Option (Bytes × Cursor × Bool) :=
  (plainWords? inFlow indent (c.rest.length + 1) {} c).map fun (chars, rest) => (encode chars, rest)

/-- The rest of a scalar between single quotes. A quote inside it is written twice. -/
def singleRest? : (limit : Nat) → Cursor → Option (List Nat × Cursor)
  | 0, _ => none
  | limit + 1, c =>
    let goOn (chars : List Nat) (c : Cursor) : Option (List Nat × Cursor) :=
      (singleRest? limit c).map fun (more, c) => (chars ++ more, c)
    if c.atDocumentMark || c.next = 0 then none
    else if c.next = 39 then
      if c.peek 1 = 39 then goOn [39] (c.skip 2) else some ([], c.advance)
    else if isBlank c.next || isBreak c.next then
      match gap? 0 (c.rest.length + 1) {} c with
      | none => none
      | some (gap, c) => goOn gap.text c
    else goOn [c.next] c.advance

/-- A scalar between single quotes. -/
def single? (c : Cursor) : Option (Bytes × Cursor) :=
  (singleRest? (c.rest.length + 1) c.advance).map fun (chars, c) => (encode chars, c)

/-- What an escape of one letter stands for. -/
def shortEscape? (c : Nat) : Option Nat :=
  match c with
  | 48 => some 0
  | 97 => some 7
  | 98 => some 8
  | 116 | 9 => some 9
  | 110 => some 10
  | 118 => some 11
  | 102 => some 12
  | 114 => some 13
  | 101 => some 27
  | 32 | 34 | 39 | 92 => some c
  | 78 => some 0x85
  | 95 => some 0xA0
  | 76 => some 0x2028
  | 80 => some 0x2029
  | _ => none

/-- How many hexadecimal digits an escape takes. -/
def escapeWidth? (c : Nat) : Option Nat :=
  match c with
  | 120 => some 2
  | 117 => some 4
  | 85 => some 8
  | _ => none

/-- The number that hexadecimal digits stand for. -/
def hexNumber? (digits : List Nat) : Option Nat :=
  digits.foldlM (fun n d => (hexValue? d).map fun v => 16 * n + v) 0

/-- The escape after a backslash: the character it stands for and the number of its own characters. -/
def escape? (c : Cursor) : Option (Nat × Nat) :=
  match shortEscape? c.next with
  | some char => some (char, 1)
  | none => do
    let width ← escapeWidth? c.next
    let digits := c.rest.tail.take width
    let n ← if digits.length = width then hexNumber? digits else none
    if (0xD800 ≤ n && n ≤ 0xDFFF) || 0x10FFFF < n then none else some (n, width + 1)

/-- The rest of a scalar between double quotes. A backslash at the end of a line takes the line end
away. -/
def doubleRest? : (limit : Nat) → Cursor → Option (List Nat × Cursor)
  | 0, _ => none
  | limit + 1, c =>
    let goOn (chars : List Nat) (c : Cursor) : Option (List Nat × Cursor) :=
      (doubleRest? limit c).map fun (more, c) => (chars ++ more, c)
    if c.atDocumentMark || c.next = 0 then none
    else if c.next = 34 then some ([], c.advance)
    else if c.next = 92 then
      if isBreak (c.peek 1) then
        let c := c.advance.nextLine
        match gap? 0 (c.rest.length + 1) { first? := some [] } c with
        | none => none
        | some (gap, c) => goOn gap.text c
      else
        match escape? c.advance with
        | none => none
        | some (char, width) => goOn [char] (c.skip (width + 1))
    else if isBlank c.next || isBreak c.next then
      match gap? 0 (c.rest.length + 1) {} c with
      | none => none
      | some (gap, c) => goOn gap.text c
    else goOn [c.next] c.advance

/-- A scalar between double quotes. -/
def double? (c : Cursor) : Option (Bytes × Cursor) :=
  (doubleRest? (c.rest.length + 1) c.advance).map fun (chars, c) => (encode chars, c)

/-- What becomes of the line ends at the end of a block. -/
inductive Chomping where
  | strip
  | clip
  | keep
  deriving Repr, DecidableEq

/-- The chomping mark, if there is one. -/
def chomping? (c : Cursor) : Option (Chomping × Cursor) :=
  if c.next = 43 then some (.keep, c.advance)
  else if c.next = 45 then some (.strip, c.advance)
  else none

/-- The number of columns by which a block is moved to the right, if it is given; zero is refused. -/
def increment? (c : Cursor) : Option (Option Nat × Cursor) :=
  if isDigitChar c.next then
    if c.next = 48 then none else some (some (c.next - 48), c.advance)
  else some (none, c)

/-- The marks of a block in either order. -/
def blockMarks? (c : Cursor) : Option (Chomping × Option Nat × Cursor) :=
  match chomping? c with
  | some (chomping, c) => (increment? c).map fun (n, c) => (chomping, n, c)
  | none =>
    match increment? c with
    | none => none
    | some (n, c) =>
      match (if n.isSome then chomping? c else none) with
      | some (chomping, c) => some (chomping, n, c)
      | none => some (.clip, n, c)

/-- The indentation and the empty lines before a line of a block: the line ends read, the widest
indentation, and the place after it. `indent` is zero while it is not known. -/
def blockLines? (indent : Nat) :
    (limit : Nat) → (breaks : List Nat) → (widest : Nat) → Cursor → Option (List Nat × Nat × Cursor)
  | 0, _, _, _ => none
  | limit + 1, breaks, widest, c =>
    let room := if indent = 0 then c.rest.length else indent - c.column
    let c := c.skip ((c.rest.take room).takeWhile (· == 32)).length
    let widest := max widest c.column
    if (indent = 0 || c.column < indent) && c.next = 9 then none
    else if !isBreak c.next then some (breaks, widest, c)
    else
      let (ended, c) := c.lineBreak
      blockLines? indent limit (breaks ++ ended) widest c

/-- The lines of a block. `ended` is the end of the line before and `breaks` those of the empty lines
after it; `blank` tells whether the line before started with a blank. -/
def blockRest? (literal : Bool) (indent : Nat) :
    (limit : Nat) → (read ended breaks : List Nat) → (blank : Bool) → Cursor →
      Option (List Nat × List Nat × List Nat × Cursor)
  | 0, _, _, _, _, _ => none
  | limit + 1, read, ended, breaks, blank, c =>
    if c.column != indent || c.next = 0 then some (read, ended, breaks, c)
    else
      let startsBlank := isBlank c.next
      let fold := !literal && !blank && !startsBlank && ended = [10]
      let joined := if fold then if breaks = [] then [32] else [] else ended
      let (line, c) := c.span fun char => !isBreakOrEnd char
      let (ended, c) := c.lineBreak
      match blockLines? indent (c.rest.length + 1) [] 0 c with
      | none => none
      | some (breaks', _, c) =>
        blockRest? literal indent limit (read ++ joined ++ breaks ++ line) ended breaks' startsBlank c

/-- The text of a block with its last line ends. -/
def Chomping.close (chomping : Chomping) (read ended breaks : List Nat) : List Nat :=
  match chomping with
  | .strip => read
  | .clip => read ++ ended
  | .keep => read ++ ended ++ breaks

/-- A block scalar inside a collection that is indented by `outer` columns (`-1` at the top). -/
def block? (literal : Bool) (outer : Int) (c : Cursor) : Option (Bytes × Cursor) := do
  let (chomping, increment, c) ← blockMarks? c.advance
  let c := c.dropWhile isBlank
  let c := if c.next = 35 then c.toLineEnd else c
  if !isBreakOrEnd c.next then none
  else
    let c := c.nextLine
    let given := (increment.map fun n => n + outer.toNat).getD 0
    let (breaks, widest, c) ← blockLines? given (c.rest.length + 1) [] 0 c
    let indent := if given = 0 then max (max widest (outer + 1).toNat) 1 else given
    let (read, ended, breaks, c) ← blockRest? literal indent (c.rest.length + 1) [] [] breaks false c
    return (encode (chomping.close read ended breaks), c)

end BuildScript.Yaml.Scalar
