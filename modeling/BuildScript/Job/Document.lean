import BuildScript.Number.Binary64

/-!
# Documents

A document is what a text in a data format stands for, before anything is known about its meaning.

* `Document.fields?`: the fields of an object, or of a table whose keys are all texts.
* `Document.toUInt?`: the whole number that a value stands for.
-/

namespace BuildScript

/-- A value of a data format. -/
inductive Document where
  | null
  | bool (value : Bool)
  | text (value : Bytes)
  /-- A signed integer. -/
  | integer (value : Int64)
  /-- An unsigned integer. -/
  | natural (value : UInt64)
  | real (value : Binary64)
  /-- A number that is kept as it was written. -/
  | numeral (written : Bytes)
  /-- A point in time. -/
  | instant
  | list (items : List Document)
  /-- Fields with texts as keys. -/
  | object (fields : List (Bytes × Document))
  /-- Pairs with any keys. -/
  | table (pairs : List (Document × Document))
  deriving Inhabited, Repr, BEq

namespace Document

/-- The value of a key. Of two fields with one key the later one counts. -/
def get? (key : Bytes) : List (Bytes × Document) → Option Document
  | [] => none
  | (other, value) :: rest =>
    match get? key rest with
    | some later => some later
    | none => if other = key then some value else none

/-- Whether a document is null. -/
def isNull : Document → Bool
  | null => true
  | _ => false

/-- The pairs of a table as fields, if every key is a text. -/
def pairFields? : List (Document × Document) → Option (List (Bytes × Document))
  | [] => some []
  | (text key, value) :: rest => (pairFields? rest).map ((key, value) :: ·)
  | _ => none

/-- The fields of a document that can be taken for an object. -/
def fields? : Document → Option (List (Bytes × Document))
  | object fields => some fields
  | table pairs => pairFields? pairs
  | _ => none

/-- The value of a decimal integer with an optional sign, if it lies in `0 .. 2 ^ 63 - 1`. -/
def numeralValue? (s : Bytes) : Option UInt64 :=
  let inRange (n : Nat) : Option UInt64 := if n < Nat.pow 2 63 then some n.toUInt64 else none
  match s with
  | 43 :: rest => (Bytes.toNat? rest).bind inRange
  | 45 :: rest => (Bytes.toNat? rest).bind fun n => if n = 0 then some 0 else none
  | _ => (Bytes.toNat? s).bind inRange

/-- The whole number, zero or above, that a value stands for. -/
def toUInt? : Document → Option UInt64
  | integer value => if 0 ≤ value then some value.toUInt64 else none
  | natural value => some value
  | real value => value.toNat?
  | numeral written => numeralValue? written
  | _ => none

/-- The texts of a list of texts. -/
def texts? : List Document → Option (List Bytes)
  | [] => some []
  | text value :: rest => (texts? rest).map (value :: ·)
  | _ => none

end Document

end BuildScript
