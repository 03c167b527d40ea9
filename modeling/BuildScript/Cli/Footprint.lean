import BuildScript.Cli.Compiler

/-!
# Footprints

A command line tells which paths it may look at, so that a disk only has to hold those.

* `Footprint.config`: the config files that may be read.
* `Footprint.program`, `Footprint.compiler`: what else a command may look at.
* `Footprint.waypoints`: the paths that are passed on the way to one of them.
* `Footprint.changes`: what a command changed.
-/

namespace BuildScript.Cli.Footprint

/-- The absolute clean paths that are passed when a path is followed, the outermost first. -/
def waypoints (cwd path : Bytes) : List Bytes :=
  let whole := if Path.isAbsolute path then path else cwd ++ Path.slash :: path
  let parts := Bytes.splitOn Path.slash whole
  let passed (n : Nat) : Bytes := Path.clean (Path.slash :: Bytes.join Path.root (parts.take n))
  ((List.range (parts.length + 1)).map passed).eraseDups

/-- The flags of a command line, if it can be read. -/
def line? (arguments : List Bytes) : Option Line :=
  (Request.ofArguments arguments).toOption.map Request.line

/-- The config files that a command may read. -/
def config (home : Bytes) (arguments : List Bytes) : List Bytes :=
  match line? arguments with
  | none => []
  | some line =>
    let given := (line.text? (bytes "config")).getD []
    if given != [] then [given]
    else Config.endings.map fun ending => Path.join [home, bytes ".cibuild." ++ ending]

/-- The file that a source names. -/
def source (cwd name : Bytes) : List Bytes :=
  if name = bytes "-" then []
  else
    match Source.file cwd name with
    | .ok (path, _) => [path]
    | .error _ => []

/-- A path that starts at the home directory, with that written out. -/
def expanded (home path : Bytes) : List Bytes :=
  match expandHome home path with
  | .ok path => if path = [] then [] else [path]
  | .error _ => []

/-- What a command may look at once its config file is known. -/
def program (world : World) (cwd : Bytes) (arguments : List Bytes) : List Bytes :=
  match Request.ofArguments arguments with
  | .error _ => []
  | .ok request =>
    let settings := Settings.ofLine world request.line
    let dir := (expanded world.home (settings.get (bytes "output_dir") Path.here)).headD Path.here
    let templates := [bytes "header", bytes "footer"].flatMap fun key =>
      expanded world.home (settings.get key [])
    let names (id : Bytes) : List Bytes :=
      [Store.recordName id, Store.scriptName id, Store.bundleName id]
    match request.task with
    | .compile | .run | .sum =>
      dir :: source cwd (request.line.arguments.headD []) ++ templates
    | .bundle | .upload =>
      dir :: request.line.arguments.flatMap (fun id => (names id).map fun name => Path.join [dir, name])
        ++ templates
    | .help => []

/-- What the compiler on its own may look at. -/
def compiler (cwd : Bytes) (arguments : List Bytes) : List Bytes :=
  match Flag.parse Compiler.flags arguments with
  | .error _ => []
  | .ok line =>
    let named (flag : String) : List Bytes := (line.text? (bytes flag)).toList.filter (· != [])
    (named "payload").flatMap (source cwd) ++ named "header" ++ named "footer" ++ named "output"

/-- Whether a command reads its input. -/
def readsInput (arguments : List Bytes) : Bool :=
  (line? arguments).any fun line => line.arguments.headD [] = bytes "-"

/-- Whether the compiler on its own reads its input. -/
def compilerReadsInput (arguments : List Bytes) : Bool :=
  match Flag.parse Compiler.flags arguments with
  | .error _ => false
  | .ok line => line.text? (bytes "payload") = some (bytes "-")

/-- The directories and files of a disk that are not the same on an earlier one, each directory ahead
of what it holds. -/
def changes (before after : Disk) : List (Bytes × Option Bytes) :=
  let old := before.root.files
  after.root.files.filter fun file => !old.contains file

end BuildScript.Cli.Footprint
