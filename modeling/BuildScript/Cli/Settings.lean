import BuildScript.Cli.Flag
import BuildScript.Files.Disk
import BuildScript.Job.Document
import BuildScript.Json.Read
import BuildScript.Number.Shortest
import BuildScript.Yaml.Read

/-!
# Settings

A setting comes from a flag, else from a variable of the environment, else from a config file, else
it has a default. A config file that cannot be read counts as empty.

* `Config.load`: the settings of a config file.
* `Settings.get`: the value of a setting.
* `expandHome`: a path with `~` for the home directory.
-/

namespace BuildScript.Cli

/-- The surroundings of a command: its disk, its variables, what it can read, and what it is given
from outside. -/
structure World where
  disk : Disk
  home : Bytes
  env : List (Bytes × Bytes)
  input : Bytes
  /-- The id of a script that is compiled. -/
  newId : Bytes

namespace Config

/-- The endings of config files, those that are looked for first ahead. -/
def endings : List Bytes :=
  [bytes "json", bytes "toml", bytes "yaml", bytes "yml", bytes "properties", bytes "props",
    bytes "prop", bytes "hcl", bytes "dotenv", bytes "env", bytes "ini"]

/-- The path of the config file: the one that was given, or the first one in the home directory. -/
def path? (world : World) (given : Bytes) : Option Bytes :=
  if given != [] then some given
  else
    (endings.map fun ending => Path.join [world.home, bytes ".cibuild." ++ ending]).find? fun path =>
      (world.disk.entry path).toOption.isSome

/-- The document that the text of a config file stands for. -/
def document? (path text : Bytes) : Option Document :=
  let ending := Path.extension path
  if ending = bytes ".json" then (Json.readWhole text).toOption
  else if ending = bytes ".yaml" || ending = bytes ".yml" then (Yaml.read text).toOption
  else none

/-- The fields of a config document, with keys in small letters. -/
def fields : Document → List (Bytes × Document)
  | .object fields => fields.map fun (key, value) => (Bytes.toLower key, value)
  | .table pairs =>
    pairs.filterMap fun (key, value) =>
      match key with
      | .text key => some (Bytes.toLower key, value)
      | _ => none
  | _ => []

/-- The settings of the config file. -/
def load (world : World) (given : Bytes) : List (Bytes × Document) :=
  match path? world given with
  | none => []
  | some path =>
    match world.disk.read path with
    | .ok text => ((document? path text).map fields).getD []
    | .error _ => []

end Config

/-- The text of a setting in a config file. There is none for null, and an empty one for a list or
an object. -/
def settingText? : Document → Option Bytes
  | .null => none
  | .text s => some s
  | .bool b => some (Bytes.ofBool b)
  | .integer n => some (Bytes.ofInt n.toInt)
  | .natural n => some (Bytes.ofNat n.toNat)
  | .real x => some x.positional
  | .numeral written => some (((Binary64.ofNumeral? written).map Binary64.positional).getD [])
  | .instant | .list _ | .object _ | .table _ => some []

/-- Where settings come from. -/
structure Settings where
  line : Line
  env : List (Bytes × Bytes)
  config : List (Bytes × Document)

namespace Settings

/-- The settings of a command line in its surroundings. -/
def ofLine (world : World) (line : Line) : Settings :=
  ⟨line, world.env, Config.load world ((line.text? (bytes "config")).getD [])⟩

/-- A name in capital letters. -/
def capitals (s : Bytes) : Bytes := s.map fun b => if 97 ≤ b && b ≤ 122 then b - 32 else b

/-- The variable of a setting; an empty one counts as not set. -/
def fromEnv? (settings : Settings) (key : Bytes) : Option Bytes :=
  let name := bytes "CIBUILD_" ++ capitals key
  match settings.env.find? fun (other, _) => other = name with
  | some (_, value) => if value = [] then none else some value
  | none => none

/-- The value of a setting. The flag for it has the same name with dashes for underscores. -/
def get (settings : Settings) (key default : Bytes) : Bytes :=
  match settings.line.text? (Bytes.replaceByte 95 45 key) with
  | some value => value
  | none =>
    match settings.fromEnv? key with
    | some value => value
    | none => ((Document.get? key settings.config).bind settingText?).getD default

end Settings

/-- Why the files that settings name cannot be had. -/
inductive SettingsFault where
  /-- A path starts at the home directory of a user with a name. -/
  | userHome
  | template (key : Bytes) (fault : Disk.Fault)
  deriving Repr, DecidableEq

/-- The wording of a fault. -/
def SettingsFault.message : SettingsFault → Bytes
  | userHome => bytes "cannot expand user-specific home dir"
  | template key fault => bytes "reading " ++ key ++ bytes " template: " ++ fault.message

/-- A path with `~` at its start replaced by the home directory. -/
def expandHome (home : Bytes) : Bytes → Except SettingsFault Bytes
  | 126 :: rest =>
    if rest = [] || rest.head? = some 47 || rest.head? = some 92 then .ok (Path.join [home, rest])
    else .error .userHome
  | path => .ok path

end BuildScript.Cli
