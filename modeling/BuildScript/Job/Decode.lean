import BuildScript.Job.Basic
import BuildScript.Job.Document

/-!
# Reading a job from a document

The fields of a job are looked up in a fixed order, and the first one that is missing or of the wrong
kind is reported under its dotted name. A null counts as missing, and unknown keys are ignored.

* `Job.ofDocument`: the job that a document describes.
-/

namespace BuildScript

/-- A field that is missing or of the wrong kind. -/
inductive FieldFault where
  | missing (field : Bytes)
  | wrongKind (field expected : Bytes)
  deriving Repr, DecidableEq

namespace FieldFault

/-- The dotted name of the field. -/
def field : FieldFault → Bytes
  | missing field => field
  | wrongKind field _ => field

/-- What was expected; empty for a missing field. -/
def expected : FieldFault → Bytes
  | missing _ => []
  | wrongKind _ expected => expected

/-- Whether the field was missing. -/
def isMissing : FieldFault → Bool
  | missing _ => true
  | wrongKind _ _ => false

/-- The wording of a fault. -/
def message : FieldFault → Bytes
  | missing field => bytes "missing field: " ++ field
  | wrongKind field expected => field ++ bytes " must be " ++ expected

end FieldFault

/-- The fields of an object, and the dotted name of the object: empty for the whole document. -/
structure Section where
  name : Bytes
  fields : List (Bytes × Document)

namespace Section

/-- The dotted name of a field. -/
def dotted (s : Section) (key : Bytes) : Bytes :=
  if s.name = [] then key else s.name ++ bytes "." ++ key

/-- The value of a field that is there and not null. -/
def lookup (s : Section) (key : Bytes) : Option Document :=
  match Document.get? key s.fields with
  | some .null | none => none
  | some value => some value

/-- A field that may be missing, read by `read`. -/
def optional {α : Type} (s : Section) (key : String) (expected : String)
    (read : Document → Option α) : Except FieldFault (Option α) :=
  match s.lookup (bytes key) with
  | none => .ok none
  | some value =>
    match read value with
    | some a => .ok (some a)
    | none => .error (.wrongKind (s.dotted (bytes key)) (bytes expected))

/-- A field that has to be there, read by `read`. -/
def required {α : Type} (s : Section) (key : String) (expected : String)
    (read : Document → Option α) : Except FieldFault α := do
  match ← s.optional key expected read with
  | some a => .ok a
  | none => .error (.missing (s.dotted (bytes key)))

/-- A text. -/
def readText : Document → Option Bytes
  | .text value => some value
  | _ => none

/-- A truth value. -/
def readBool : Document → Option Bool
  | .bool value => some value
  | _ => none

/-- A list of texts. -/
def readTexts : Document → Option (List Bytes)
  | .list items => Document.texts? items
  | _ => none

/-- One of the two strategies. -/
def readStrategy (strategy : Bytes) : Option Bytes :=
  if strategy = GitConfig.clone || strategy = GitConfig.tarball then some strategy else none

/-- An object that has to be there. -/
def requiredObject (s : Section) (key : String) : Except FieldFault Section := do
  let fields ← s.required key "an object" Document.fields?
  return ⟨s.dotted (bytes key), fields⟩

/-- An object that may be missing, which counts as an empty one. -/
def optionalObject (s : Section) (key : String) : Except FieldFault Section := do
  let fields ← s.optional key "an object" Document.fields?
  return ⟨s.dotted (bytes key), fields.getD []⟩

/-- A text that has to be there. -/
def text (s : Section) (key : String) : Except FieldFault Bytes := s.required key "a string" readText

/-- A text that may be missing. -/
def text? (s : Section) (key : String) : Except FieldFault (Option Bytes) :=
  s.optional key "a string" readText

/-- A truth value that has to be there. -/
def bool (s : Section) (key : String) : Except FieldFault Bool := s.required key "a bool" readBool

/-- A truth value that may be missing. -/
def bool? (s : Section) (key : String) : Except FieldFault (Option Bool) :=
  s.optional key "a bool" readBool

/-- A whole number that may be missing. -/
def natural? (s : Section) (key : String) : Except FieldFault (Option UInt64) :=
  s.optional key "an int" Document.toUInt?

/-- A list of texts that may be missing. -/
def texts? (s : Section) (key : String) : Except FieldFault (Option (List Bytes)) :=
  s.optional key "a list of strings" readTexts

/-- The strategy of a checkout, which may be missing. -/
def strategy? (s : Section) (key : String) : Except FieldFault (Option Bytes) := do
  match ← s.text? key with
  | none => return none
  | some value =>
    match readStrategy value with
    | some strategy => return some strategy
    | none => throw (.wrongKind (s.dotted (bytes key)) (bytes "\"clone\" or \"tarball\""))

end Section

/-- Reads what is checked out. -/
def Revision.ofSection (s : Section) : Except FieldFault Revision := do
  let branch ← s.text "branch"
  let commit ← s.text "commit"
  let ref? ← s.text? "ref"
  let pullRequest ← s.bool "pull_request"
  return ⟨branch, commit, ref?, pullRequest⟩

/-- Reads where it comes from. -/
def Repository.ofSection (s : Section) : Except FieldFault Repository := do
  let slug ← s.text "slug"
  let sourceUrl ← s.text "source_url"
  return ⟨slug, sourceUrl⟩

/-- Reads how it is checked out. -/
def GitConfig.ofSection (s : Section) : Except FieldFault GitConfig := do
  let depth ← s.natural? "depth"
  let submodules ← s.bool? "submodules"
  let submodulesDepth? ← s.natural? "submodules_depth"
  let strategy ← s.strategy? "strategy"
  return ⟨depth.getD GitConfig.default.depth, submodules.getD GitConfig.default.submodules,
    submodulesDepth?, strategy.getD GitConfig.default.strategy⟩

/-- Reads how it is built. -/
def Config.ofSection (s : Section) : Except FieldFault Config := do
  let language ← s.text? "language"
  let git ← s.optionalObject "git"
  let git ← GitConfig.ofSection git
  let services ← s.texts? "services"
  return ⟨language.getD [], git, services.getD []⟩

/-- Reads a job. The two fixes are applied only if the document says not to skip them. -/
def Job.ofSection (s : Section) : Except FieldFault Job := do
  let revision ← s.requiredObject "job"
  let revision ← Revision.ofSection revision
  let repository ← s.requiredObject "repository"
  let repository ← Repository.ofSection repository
  let config ← s.requiredObject "config"
  let config ← Config.ofSection config
  let paranoid ← s.bool? "paranoid"
  let skipResolv ← s.bool? "skip_resolv_updates"
  let skipHosts ← s.bool? "skip_etc_hosts_fix"
  return ⟨revision, repository, config, paranoid.getD false, !skipResolv.getD true,
    !skipHosts.getD true⟩

/-- The job that a document describes. -/
def Job.ofDocument (document : Document) : Except FieldFault Job :=
  match document.fields? with
  | none => .error (.wrongKind (bytes "payload") (bytes "an object"))
  | some fields => Job.ofSection ⟨[], fields⟩

end BuildScript
