import BuildScript.Json.Read
import BuildScript.Json.Write

/-!
# Records of scripts

Next to each script lies a record of where it came from: an object of six texts.

* `Record.render`: the text of a record.
* `Record.read`: the record that a text holds. Keys count without their case and unknown ones are
  passed over; null leaves a text as it is.
-/

namespace BuildScript

/-- Where a script came from. -/
structure Record where
  id : Bytes
  slug : Bytes
  commit : Bytes
  language : Bytes
  /-- The fingerprint of the tree. -/
  fingerprint : Bytes
  /-- The hash of the job. -/
  jobHash : Bytes
  deriving Repr, DecidableEq

namespace Record

/-- A record in which nothing is set. -/
def blank : Record := ⟨[], [], [], [], [], []⟩

/-- The fields of a record. -/
inductive Field where
  | id
  | slug
  | commit
  | language
  | fingerprint
  | jobHash
  deriving Repr, DecidableEq

namespace Field

/-- All fields in the order in which they are written. -/
def all : List Field := [id, slug, commit, language, fingerprint, jobHash]

/-- The key of a field. -/
def key : Field → Bytes
  | id => bytes "id"
  | slug => bytes "slug"
  | commit => bytes "commit"
  | language => bytes "language"
  | fingerprint => bytes "fingerprint"
  | jobHash => bytes "payload_hash"

end Field

/-- The text of a field. -/
def get (record : Record) : Field → Bytes
  | .id => record.id
  | .slug => record.slug
  | .commit => record.commit
  | .language => record.language
  | .fingerprint => record.fingerprint
  | .jobHash => record.jobHash

/-- A record with the text of a field replaced. -/
def set (record : Record) (field : Field) (value : Bytes) : Record :=
  match field with
  | .id => { record with id := value }
  | .slug => { record with slug := value }
  | .commit => { record with commit := value }
  | .language => { record with language := value }
  | .fingerprint => { record with fingerprint := value }
  | .jobHash => { record with jobHash := value }

/-- The text of a record. -/
def render (record : Record) : Bytes :=
  Json.fields (Field.all.map fun field => (field.key, record.get field))

/-- A key with its case taken away. The long s and the Kelvin sign count as the letters whose
variants they are. -/
def foldKey : Bytes → Bytes
  | 0xC5 :: 0xBF :: rest => 115 :: foldKey rest
  | 0xE2 :: 0x84 :: 0xAA :: rest => 107 :: foldKey rest
  | b :: rest => Bytes.lowerByte b :: foldKey rest
  | [] => []

/-- The field with a key. -/
def field? (key : Bytes) : Option Field := Field.all.find? fun field => field.key = foldKey key

/-- Takes the fields of an object into a record, from left to right. -/
def fill? : Record → List (Bytes × Document) → Option Record
  | record, [] => some record
  | record, (key, value) :: rest =>
    match field? key, value with
    | none, _ => fill? record rest
    | some _, .null => fill? record rest
    | some field, .text s => fill? (record.set field s) rest
    | some _, _ => none

/-- The record that a document stands for. -/
def ofDocument? : Document → Option Record
  | .null => some blank
  | .object fields => fill? blank fields
  | _ => none

/-- The record that a text holds. -/
def read (text : Bytes) : Except Json.Fault Record := do
  match ofDocument? (← Json.read text) with
  | some record => return record
  | none => throw .malformed

end Record

end BuildScript
