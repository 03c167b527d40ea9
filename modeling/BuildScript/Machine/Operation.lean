import BuildScript.Machine.State

/-!
# What a machine can do with its files

Each operation takes paths relative to the working directory and changes the file tree step by step.
Where it fails on the way, it gives the tree as the steps up to there have left it, and reports
nothing.

* `Machine.makeDir`, `Machine.put`, `Machine.copy`, `Machine.move`, `Machine.remove`.
* `Edit`, `Machine.Change`: a tree and a machine after an operation that may have failed.
* `Landing`: where a copied or moved entry ends up.
-/

namespace BuildScript

/-- Why a file operation fails. Paths are absolute. -/
inductive FileFault where
  | notFound (path : Bytes)
  | notDirectory (path : Bytes)
  | isDirectory (path : Bytes)
  | moveIntoSelf (source target : Bytes)
  | copyIntoSelf (source target : Bytes)
  deriving Repr, DecidableEq

/-- The wording of a fault. -/
def FileFault.message : FileFault → Bytes
  | notFound path => path ++ bytes ": no such file or directory"
  | notDirectory path => path ++ bytes ": not a directory"
  | isDirectory path => path ++ bytes ": is a directory"
  | moveIntoSelf source target =>
    source ++ bytes " => " ++ target ++ bytes ": cannot move a directory into itself"
  | copyIntoSelf source target =>
    source ++ bytes " => " ++ target ++ bytes ": cannot copy a directory into itself"

/-- A file tree after an operation: the tree as it is left, whether the operation went through or
failed on the way, and what came of the operation. -/
structure Edit (α : Type) where
  root : Folder
  result : Except FileFault α

namespace Folder

/-- Makes the directory at an absolute clean path, and those above it. -/
def makeDir (path : Bytes) (root : Folder) : Edit Unit :=
  match makeDirs (Path.segments path) root with
  | (made, none) => ⟨made, .ok ()⟩
  | (made, some place) => ⟨made, .error (.notDirectory (pathOf place false))⟩

/-- Writes the file at an absolute clean path, making the directories above it. Only in the directory
that should hold the file is it seen whether its name is that of a directory. -/
def put (path data : Bytes) (root : Folder) : Edit Unit :=
  if path = Path.root then ⟨root, .error (.isDirectory path)⟩
  else
    let (above, name) := Path.splitLast path
    match makeDir above root with
    | ⟨made, .error fault⟩ => ⟨made, .error fault⟩
    | ⟨made, .ok ()⟩ =>
      match made.walk (Path.segments above ++ [name]) with
      | some (.dir _) => ⟨made, .error (.isDirectory path)⟩
      | _ => ⟨update (insert name (.file data)) (Path.segments above) made, .ok ()⟩

/-- The directory that holds, or could hold, what is at a path, and the last segment of the path. -/
def parent (path : Bytes) (root : Folder) : Except FileFault (Folder × Bytes) :=
  let (above, name) := Path.splitLast path
  match root.walk (Path.segments above) with
  | none => .error (.notFound above)
  | some (.file _) => .error (.notDirectory above)
  | some (.dir folder) => .ok (folder, name)

/-- Takes away what is at an absolute clean path. -/
def remove (path : Bytes) (root : Folder) : Folder :=
  if path = Path.root then []
  else
    let (parent, name) := Path.splitLast path
    update (erase name) (Path.segments parent) root

/-- Whether `path` is strictly below the directory `above`. -/
def isBelow (path above : Bytes) : Bool := Bytes.startsWith (above ++ Path.root) path

end Folder

/-- Where a copied or moved entry ends up. -/
structure Landing where
  /-- The entry to be copied or moved. -/
  entry : Entry
  /-- Its own path. -/
  source : Bytes
  /-- The path where it lands. -/
  target : Bytes
  /-- What is there so far. -/
  old? : Option Entry

namespace Landing

/-- The path at which `source` lands when it is sent to `target`: a directory receives it under its
own name. -/
def targetPath (root : Folder) (source target : Bytes) : Bytes :=
  match root.walk (Path.segments target) with
  | some (.dir _) => Path.join [target, Path.base source]
  | _ => target

/-- Works out where an entry lands. The directory above has to be there, and what is at the landing
point already has to be of the same kind. -/
def find (root : Folder) (source target : Bytes) : Except FileFault Landing :=
  match root.walk (Path.segments source) with
  | none => .error (.notFound source)
  | some entry =>
    let landing := targetPath root source target
    match root.parent landing with
    | .error fault => .error fault
    | .ok (folder, name) =>
      match entry, Folder.find? name folder with
      | .dir _, some (.file _) => .error (.notDirectory landing)
      | .file _, some (.dir _) => .error (.isDirectory landing)
      | _, old? => .ok ⟨entry, source, landing, old?⟩

/-- The tree with `entry` put at the landing point. -/
def place (landing : Landing) (entry : Entry) (root : Folder) : Folder :=
  let (parent, name) := Path.splitLast landing.target
  root.update (Folder.insert name entry) (Path.segments parent)

end Landing

namespace Folder

/-- Copies what is at `source` to `target`. A directory that lands on a directory is merged into it. -/
def copy (source target : Bytes) (root : Folder) : Edit Landing :=
  match Landing.find root source target with
  | .error fault => ⟨root, .error fault⟩
  | .ok landing =>
    if landing.entry.isDir
        && (landing.target = source || source = Path.root || isBelow landing.target source) then
      ⟨root, .error (.copyIntoSelf source landing.target)⟩
    else ⟨landing.place (overlay landing.entry landing.old?) root, .ok landing⟩

/-- Moves what is at `source` to `target`, in place of what is there. Nothing is done if it is there
already. -/
def move (source target : Bytes) (root : Folder) : Edit Landing :=
  match Landing.find root source target with
  | .error fault => ⟨root, .error fault⟩
  | .ok landing =>
    if landing.target = source then ⟨root, .ok landing⟩
    else if source = Path.root || isBelow landing.target source then
      ⟨root, .error (.moveIntoSelf source landing.target)⟩
    else
      match root.parent source with
      | .error fault => ⟨root, .error fault⟩
      | .ok _ => ⟨landing.place landing.entry (remove source root), .ok landing⟩

end Folder

namespace Machine

/-- A machine after an operation: the machine as it is left in either case, the events to report, and
the fault if the operation failed. -/
structure Change where
  machine : Machine
  events : List Event
  fault? : Option FileFault

/-- A machine whose file tree was edited. The events are those of an edit that went through. -/
def edited {α : Type} (machine : Machine) (edit : Edit α) (events : α → List Event) : Change :=
  match edit with
  | ⟨root, .ok value⟩ => ⟨{ machine with root }, events value, none⟩
  | ⟨root, .error fault⟩ => ⟨{ machine with root }, [], some fault⟩

/-- Makes a directory and those above it. -/
def makeDir (machine : Machine) (path : Bytes) : Change :=
  let target := machine.resolve path
  machine.edited (machine.root.makeDir target) fun _ => [.file (bytes "mkdir") target []]

/-- Writes a file, making the directories above it. -/
def put (machine : Machine) (path data : Bytes) : Change :=
  let target := machine.resolve path
  machine.edited (machine.root.put target data) fun _ => [.file (bytes "write") target []]

/-- Copies a file or a directory. -/
def copy (machine : Machine) (source target : Bytes) : Change :=
  machine.edited (machine.root.copy (machine.resolve source) (machine.resolve target))
    fun landing => [.file (bytes "cp") landing.source landing.target]

/-- Moves a file or a directory. A move to the same place is not reported. -/
def move (machine : Machine) (source target : Bytes) : Change :=
  machine.edited (machine.root.move (machine.resolve source) (machine.resolve target))
    fun landing =>
      if landing.target = landing.source then []
      else [.file (bytes "mv") landing.source landing.target]

/-- Removes a file or a directory; it need not be there. -/
def remove (machine : Machine) (path : Bytes) : Machine × List Event :=
  let target := machine.resolve path
  ({ machine with root := machine.root.remove target }, [.file (bytes "rm") target []])

/-- Changes the working directory, which need not be there. -/
def changeDir (machine : Machine) (path : Bytes) : Machine × List Event :=
  let target := machine.resolve path
  ({ machine with cwd := target }, [.file (bytes "cd") target []])

/-- Exports a variable. -/
def setEnv (machine : Machine) (key value : Bytes) : Machine × List Event :=
  ({ machine with env := setVariable key value machine.env }, [.env key value])

/-- Logs a command. -/
def logged (machine : Machine) (text : Bytes) (options : List CommandOption) :
    Machine × List Event :=
  ({ machine with log := machine.log ++ [⟨text, options⟩] },
    [.command text (CommandOption.echoes options) (CommandOption.asserts options)
      ((CommandOption.display? options).getD [])])

end Machine

end BuildScript
