import BuildScript.Digest.Md5
import BuildScript.Store.Basic
import BuildScript.Text.Base64

/-!
# Uploads

A script is uploaded as two objects: its record, then the script itself.

* `Store.upload`: offers the two objects to a bucket.
-/

namespace BuildScript

/-- An object that a bucket took. -/
structure Put where
  bucket : Bytes
  key : Bytes
  contentType : Bytes
  /-- The MD5 digest of the body in base 64. -/
  contentMd5 : Bytes
  metadata : List (Bytes × Bytes)
  body : Bytes
  deriving Repr, DecidableEq

/-- Where objects are put. -/
structure Bucket where
  name : Bytes
  /-- The reason for which the next object is refused after some have been taken. -/
  refusal? : (taken : Nat) → Option Bytes

/-- How far an upload got. -/
structure Upload where
  puts : List Put
  fault? : Option Store.Fault
  deriving Repr, DecidableEq

/-- The metadata key of the id of a script. -/
def Put.idKey : Bytes := bytes "cibuild-id"

/-- The object that a text becomes. -/
def Put.ofBody (bucket id key contentType body : Bytes) : Put :=
  { bucket, key, contentType, body
    contentMd5 := Base64.encode (Md5.digest body)
    metadata := [(Put.idKey, id)] }

namespace Store

/-- Offers the file with a name to a bucket that has taken some objects. -/
def offer (store : Store) (bucket : Bucket) (taken : Nat) (id name contentType : Bytes) :
    Except Fault Put := do
  let body ← onDisk (store.disk.read (store.pathOf name))
  match bucket.refusal? taken with
  | some reason => throw (.refused reason)
  | none => return Put.ofBody bucket.name id name contentType body

/-- Uploads the record and then the script with an id. Each object is offered once the one before it
has been taken. -/
def upload (store : Store) (bucket : Bucket) (id : Bytes) : Upload :=
  match store.record id with
  | .error fault => ⟨[], some fault⟩
  | .ok _ =>
    match store.offer bucket 0 id (recordName id) (bytes "application/json") with
    | .error fault => ⟨[], some fault⟩
    | .ok first =>
      match store.offer bucket 1 id (scriptName id) (bytes "text/x-shellscript") with
      | .error fault => ⟨[first], some fault⟩
      | .ok second => ⟨[first, second], none⟩

end Store

end BuildScript
