import BuildScript.Text.Bytes

/-!
# Comma-separated texts

Fields are separated by commas. A field in double quotes may hold commas, line ends and, written
twice, double quotes; outside of such a field there is none.

* `Csv.record`: the fields of the first line that is not empty.
-/

namespace BuildScript.Csv

/-- What is wrong with a quote. -/
inductive Problem where
  /-- It stands in a field that is not quoted. -/
  | bare
  /-- It does not end its field, or is missing. -/
  | stray
  deriving Repr, DecidableEq

/-- Why there is no record. -/
inductive Fault where
  | empty
  /-- The record starts at the line `start`; the fault is at the line and column that follow. -/
  | malformed (start line column : Nat) (problem : Problem)
  deriving Repr, DecidableEq

/-- The wording of a problem. -/
def Problem.message : Problem → Bytes
  | bare => bytes "bare \" in non-quoted-field"
  | stray => bytes "extraneous or missing \" in quoted-field"

/-- The wording of a fault. -/
def Fault.message : Fault → Bytes
  | empty => bytes "EOF"
  | malformed start line column problem =>
    (if start = line then [] else bytes "record on line " ++ Bytes.ofNat start ++ bytes "; ")
      ++ bytes "parse error on line " ++ Bytes.ofNat line ++ bytes ", column " ++ Bytes.ofNat column
      ++ bytes ": " ++ problem.message

/-- The first line of a text with its line feed, and the rest. A carriage return at its end does not
count. -/
def takeLine (s : Bytes) : Bytes × Bytes :=
  let (head, tail?) := Bytes.cut 10 s
  let bare := if head.getLast? = some 13 then head.dropLast else head
  match tail? with
  | some tail => (bare ++ [10], tail)
  | none => (bare, [])

/-- Where the reading is. -/
structure Spot where
  /-- The line where the record starts. -/
  start : Nat
  line : Nat
  column : Nat
  /-- What is left of the line. -/
  text : Bytes
  /-- The lines that follow. -/
  rest : Bytes

/-- The spot some bytes further in the line. -/
def Spot.skip (spot : Spot) (n : Nat) : Spot :=
  { spot with column := spot.column + n, text := spot.text.drop n }

/-- A fault some bytes further in the line. -/
def Spot.fault (spot : Spot) (n : Nat) (problem : Problem) : Fault :=
  .malformed spot.start spot.line (spot.column + n) problem

mutual
/-- The fields from a spot on. The first argument bounds the number of steps. -/
def fields : (limit : Nat) → Spot → Except Fault (List Bytes)
  | 0, _ => .ok []
  | limit + 1, spot =>
    if spot.text.head? = some 34 then quoted limit [] (spot.skip 1)
    else
      let (head, tail?) := Bytes.cut 44 spot.text
      let field := if tail?.isNone && head.getLast? = some 10 then head.dropLast else head
      if field.contains 34 then .error (spot.fault (field.takeWhile (· != 34)).length .bare)
      else if tail?.isNone then .ok [field]
      else (fields limit (spot.skip (head.length + 1))).map (field :: ·)
/-- The fields from inside a quoted one on, of which `done` has been read. -/
def quoted : (limit : Nat) → (done : Bytes) → Spot → Except Fault (List Bytes)
  | 0, _, _ => .ok []
  | limit + 1, done, spot =>
    match Bytes.cut 34 spot.text with
    | (part, some after) =>
      let next := spot.skip (part.length + 1)
      match after with
      | 34 :: _ => quoted limit (done ++ part ++ [34]) (next.skip 1)
      | 44 :: _ => (fields limit (next.skip 1)).map ((done ++ part) :: ·)
      | [] | [10] => .ok [done ++ part]
      | _ => .error (spot.fault part.length .stray)
    | (part, none) =>
      if part = [] then .error (spot.fault 0 .stray)
      else
        let (line, rest) := takeLine spot.rest
        if line = [] then quoted limit (done ++ part) (spot.skip part.length)
        else quoted limit (done ++ part) ⟨spot.start, spot.line + 1, 1, line, rest⟩
end

/-- The first line that is not empty, with its number. The first argument bounds the number of
lines. -/
def firstLine? : (limit : Nat) → (number : Nat) → Bytes → Option Spot
  | 0, _, _ => none
  | limit + 1, number, s =>
    if s = [] then none
    else
      match takeLine s with
      | (line, rest) =>
        if line = [] || line = [10] then firstLine? limit (number + 1) rest
        else some ⟨number, number, 1, line, rest⟩

/-- The fields of the first line that is not empty. -/
def record (s : Bytes) : Except Fault (List Bytes) :=
  match firstLine? (s.length + 1) 1 s with
  | none => .error .empty
  | some spot => fields (2 * s.length + 2) spot

end BuildScript.Csv
