import BuildScript.Digest.Base58
import BuildScript.Digest.Blake2b

/-!
# Data and their fingerprints

A fingerprint is the digest of an encoding in which every text and every list is preceded by its
length and every record by its name, so that different data have different encodings.

* `Datum.encode`: the encoding.
* `Datum.fingerprint`: its digest, written in base 58.
-/

namespace BuildScript

/-- A piece of data. -/
inductive Datum where
  | bool (value : Bool)
  | signed (value : Int)
  | unsigned (value : Nat)
  | text (value : Bytes)
  | list (items : List Datum)
  | record (name : Bytes) (fields : List (Bytes × Datum))
  /-- A value of a kind that has no fingerprint. -/
  | unsupported (kind : Bytes)
  deriving Inhabited, Repr, BEq

namespace Datum

/-- A text with its length in front. -/
def encodeText (s : Bytes) : Bytes := LittleEndian.ofLength s.length ++ s

mutual
/-- The encoding of a datum. -/
def encode : Datum → Bytes
  | bool value => [if value then 1 else 0]
  | signed value => LittleEndian.ofInt value
  | unsigned value => LittleEndian.encode 8 value
  | text value => encodeText value
  | list items => LittleEndian.ofLength items.length ++ encodeAll items
  | record name fields => encodeText name ++ encodeFields fields
  | unsupported _ => []
/-- The encodings of data in a row. -/
def encodeAll : List Datum → Bytes
  | [] => []
  | item :: rest => item.encode ++ encodeAll rest
/-- The encodings of fields in a row, each with its name. -/
def encodeFields : List (Bytes × Datum) → Bytes
  | [] => []
  | (name, value) :: rest => encodeText name ++ value.encode ++ encodeFields rest
end

mutual
/-- The first kind in a datum that has no fingerprint. -/
def unsupported? : Datum → Option Bytes
  | bool _ | signed _ | unsigned _ | text _ => none
  | list items => unsupportedIn? items
  | record _ fields => unsupportedField? fields
  | unsupported kind => some kind
/-- The first kind in a list that has no fingerprint. -/
def unsupportedIn? : List Datum → Option Bytes
  | [] => none
  | item :: rest => item.unsupported?.or (unsupportedIn? rest)
/-- The first kind in a row of fields that has no fingerprint. -/
def unsupportedField? : List (Bytes × Datum) → Option Bytes
  | [] => none
  | (_, value) :: rest => value.unsupported?.or (unsupportedField? rest)
end

/-- The digest of the encoding. -/
def digest (datum : Datum) : Bytes := Base58.encode (Blake2b.digest datum.encode)

/-- The digest of the encoding, or the kind that has none. -/
def fingerprint (datum : Datum) : Except Bytes Bytes :=
  match datum.unsupported? with
  | some kind => .error kind
  | none => .ok datum.digest

end Datum

end BuildScript
