import BuildScript.Files.Folder
import BuildScript.Machine.Event
import BuildScript.Tree.PathText
import BuildScript.Tree.Command

/-!
# The machine

Scripts run on a machine that is only a value: a file tree, a working directory, the exported
variables, and a log of the commands that a real shell would have been given.

* `Machine.fresh`, `Machine.bare`, `Machine.zero`: where a run may start.
* `Machine.resolve`, `Machine.lookup`: paths relative to the working directory.
* `Machine.ran`, `Machine.ranWith`, `Machine.find?`: questions to the log.
-/

namespace BuildScript

/-- A logged command with the options it was given. -/
structure Executed where
  command : Bytes
  options : List CommandOption
  deriving Repr, DecidableEq

/-- The state of a machine. The working directory is an absolute clean path, or empty, which means
the root. Variables are in the byte order of their names. -/
structure Machine where
  root : Folder
  cwd : Bytes
  env : List (Bytes × Bytes)
  log : List Executed
  deriving Repr, BEq

namespace Machine

/-- The home directory. -/
def home : Bytes := bytes "/home/travis"

/-- A machine on which nothing has been set up. -/
def zero : Machine := ⟨[], [], [], []⟩

/-- A machine without files, in the directory `cwd`, which is taken from the root. -/
def bare (cwd : Bytes) : Machine := ⟨[], Path.clean (Path.slash :: cwd), [], []⟩

/-- A machine in its home directory, the only one there is. -/
def fresh : Machine :=
  let start := Machine.bare home
  { start with root := (Folder.makeDirs (Path.segments start.cwd) start.root).1 }

/-- A variable set to a value. -/
def setVariable (key value : Bytes) : List (Bytes × Bytes) → List (Bytes × Bytes)
  | [] => [(key, value)]
  | (other, old) :: rest =>
    if other = key then (key, value) :: rest
    else if Bytes.before key other then (key, value) :: (other, old) :: rest
    else (other, old) :: setVariable key value rest

/-- The absolute clean form of a path. -/
def resolve (machine : Machine) (path : Bytes) : Bytes :=
  if Path.isAbsolute path then Path.clean path
  else Path.join [if machine.cwd = [] then Path.root else machine.cwd, path]

/-- The entry at a path. -/
def lookup (machine : Machine) (path : Bytes) : Option Entry :=
  machine.root.walk (Path.segments (machine.resolve path))

/-- Whether something is at a path. -/
def hasEntry (machine : Machine) (path : Bytes) : Bool := (machine.lookup path).isSome

/-- Whether a directory is at a path. -/
def hasDirectory (machine : Machine) (path : Bytes) : Bool :=
  (machine.lookup path).any Entry.isDir

/-- The contents of the regular file at a path. -/
def read? (machine : Machine) (path : Bytes) : Option Bytes :=
  (machine.lookup path).bind Entry.data?

/-- Whether a regular file is at a path. -/
def hasFile (machine : Machine) (path : Bytes) : Bool := (machine.read? path).isSome

/-- The first logged command with exactly this text. -/
def find? (machine : Machine) (text : Bytes) : Option Executed :=
  machine.log.find? fun executed => executed.command = text

/-- Whether a command with exactly this text was logged. -/
def ran (machine : Machine) (text : Bytes) : Bool := (machine.find? text).isSome

/-- Whether a command that starts with this text was logged. -/
def ranWith (machine : Machine) (start : Bytes) : Bool :=
  machine.log.any fun executed => Bytes.startsWith start executed.command

/-- The working directory, the log and the paths of all files, on one line. -/
def summary (machine : Machine) : Bytes :=
  bytes "cwd=" ++ machine.cwd
    ++ bytes " commands=[" ++ Bytes.join [32] (machine.log.map Executed.command)
    ++ bytes "] files=[" ++ Bytes.join [32] machine.root.paths ++ bytes "]"

end Machine

end BuildScript
