import BuildScript.Compile.Script
import BuildScript.Digest.Fingerprint
import BuildScript.Files.Disk
import BuildScript.Job.Basic
import BuildScript.Store.Record

/-!
# The store of compiled scripts

A store is a directory of a disk. A script with the id `ID` lies there as `ID.sh`, its record as
`ID.info.json`.

* `Store.save`: compiles a job into the store; `Store.Saved`: the store as it is left.
* `Store.record`: the record of a script.
-/

namespace BuildScript

/-- A directory that holds scripts. -/
structure Store where
  disk : Disk
  dir : Bytes
  deriving Repr, BEq

namespace Store

/-- Why an operation on a store fails. -/
inductive Fault where
  | script (fault : Script.Fault)
  /-- A value in the tree of a script has no fingerprint. -/
  | unknownKind (kind : Bytes)
  | file (fault : Disk.Fault)
  | unknownId (id : Bytes)
  /-- The record of a script cannot be read. -/
  | record (id : Bytes) (fault : Json.Fault)
  /-- An object was not taken. -/
  | refused (reason : Bytes)
  deriving Repr, DecidableEq

/-- The wording of a fault. What a record lacks is not told. -/
def Fault.message : Fault → Bytes
  | script fault => fault.message
  | unknownKind kind => bytes "unknown kind to hash: " ++ kind
  | file fault => fault.message
  | unknownId id => id ++ bytes ": unknown script id"
  | record id _ => bytes "decoding info for " ++ id
  | refused reason => reason

/-- What is done on the disk of a store. -/
def onDisk {α : Type} : Except Disk.Fault α → Except Fault α
  | .ok a => .ok a
  | .error fault => .error (.file fault)

/-- The name of a record. -/
def recordName (id : Bytes) : Bytes := id ++ bytes ".info.json"

/-- The name of a script. -/
def scriptName (id : Bytes) : Bytes := id ++ bytes ".sh"

/-- The path of a name in the store. -/
def pathOf (store : Store) (name : Bytes) : Bytes := Path.join [store.dir, name]

/-- The record of a compiled job, or the kind of a value in its tree that has no fingerprint. -/
def recordFor (id : Bytes) (job : Job) (compiled : Script.Compiled) : Except Bytes Record := do
  let fingerprint ← compiled.tree.datum.fingerprint
  return { id
           slug := job.repository.slug
           commit := job.revision.commit
           language := compiled.language
           fingerprint
           jobHash := job.hash }

/-- A store after a script was to be kept in it: the store as it is left in either case, and the record
of the script if all went well. -/
structure Saved where
  store : Store
  result : Except Fault Record

/-- Writes a script and then its record. What was written before a step fails stays. -/
def keep (store : Store) (text : Bytes) (record : Record) : Saved :=
  let made := store.disk.makeDirs store.dir
  match made.fault? with
  | some fault => ⟨{ store with disk := made.disk }, .error (.file fault)⟩
  | none =>
    match made.disk.write (store.pathOf (scriptName record.id)) text with
    | .error fault => ⟨{ store with disk := made.disk }, .error (.file fault)⟩
    | .ok written =>
      match written.write (store.pathOf (recordName record.id)) record.render with
      | .error fault => ⟨{ store with disk := written }, .error (.file fault)⟩
      | .ok disk => ⟨{ store with disk }, .ok record⟩

/-- Compiles a job into the store under an id. Nothing is written before the record is complete. -/
def save (store : Store) (header footer : Bytes) (job : Job) (id : Bytes) : Saved :=
  match Script.compile header footer job with
  | .error fault => ⟨store, .error (.script fault)⟩
  | .ok compiled =>
    match recordFor id job compiled with
    | .error kind => ⟨store, .error (.unknownKind kind)⟩
    | .ok record => store.keep compiled.text record

/-- The record of the script with an id. An id is unknown if it has no record. -/
def record (store : Store) (id : Bytes) : Except Fault Record :=
  match store.disk.openAt (store.pathOf (recordName id)) with
  | .error fault => .error (if fault.cause = .missing then .unknownId id else .file fault)
  | .ok (.dir _) => .error (.record id .malformed)
  | .ok (.file text) =>
    match Record.read text with
    | .ok record => .ok record
    | .error fault => .error (.record id fault)

end Store

end BuildScript
