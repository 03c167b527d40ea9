import BuildScript.Job.Decode
import BuildScript.Json.Read
import BuildScript.Path
import BuildScript.Yaml.Read

/-!
# Loading a job

* `Format.ofName`: the format that a file name or an address tells.
* `Job.load`: the job that a text describes.
-/

namespace BuildScript

/-- The formats in which jobs are written. -/
inductive Format where
  | json
  | yaml
  deriving Repr, DecidableEq

namespace Format

/-- The name of a format. -/
def name : Format → Bytes
  | json => bytes "json"
  | yaml => bytes "yaml"

/-- The format with a name; without a name it is JSON. -/
def named? (name : Bytes) : Option Format :=
  if name = [] || name = json.name then some json
  else if name = yaml.name then some yaml
  else none

/-- The format that a file name or an address tells by its ending, a query apart. -/
def ofName (name : Bytes) : Format :=
  let ending := Bytes.toLower (Path.extension (Bytes.cut 63 name).1)
  if ending = bytes ".yml" || ending = bytes ".yaml" then yaml else json

end Format

/-- Why a job cannot be loaded. -/
inductive LoadFault where
  | json (fault : Json.Fault)
  | yaml (fault : Yaml.Fault)
  | unknownFormat (name : Bytes)
  | field (fault : FieldFault)
  deriving Repr, DecidableEq

/-- The wording of a fault. What a text lacks is not told. -/
def LoadFault.message : LoadFault → Bytes
  | json _ => bytes "decoding json payload"
  | yaml _ => bytes "decoding yaml payload"
  | unknownFormat name => name ++ bytes ": unknown payload format"
  | field fault => fault.message

/-- The document that a text in a format stands for. -/
def Format.read (format : Format) (text : Bytes) : Except LoadFault Document :=
  match format with
  | json =>
    match Json.read text with
    | .ok document => .ok document
    | .error fault => .error (.json fault)
  | yaml =>
    match Yaml.read text with
    | .ok document => .ok document
    | .error fault => .error (.yaml fault)

namespace Job

/-- The job that a text in a format describes. -/
def loadAs (format : Format) (text : Bytes) : Except LoadFault Job := do
  let document ← format.read text
  match Job.ofDocument document with
  | .ok job => return job
  | .error fault => throw (.field fault)

/-- The job that a text in the format with a name describes. -/
def load (format text : Bytes) : Except LoadFault Job :=
  match Format.named? format with
  | some format => loadAs format text
  | none => .error (.unknownFormat format)

end Job

end BuildScript
