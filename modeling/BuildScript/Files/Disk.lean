import BuildScript.Files.Folder

/-!
# Disks

A disk is a file tree with a working directory in it. A path on a disk is followed segment by
segment: what stands before a slash has to be a directory that is there, also ahead of `..`.

* `Disk.locate`: the place to which a path leads.
* `Disk.entry`, `Disk.read`: what is at a path.
* `Disk.write`, `Disk.remove`: changes, each of which happens as a whole or not at all.
* `Disk.makeDirs`: a change in several steps, of which the first ones stay if a later one fails.
-/

namespace BuildScript

/-- A file tree with the place of its working directory. -/
structure Disk where
  root : Folder
  cwd : List Bytes
  deriving Repr, BEq

namespace Disk

/-- What is wrong with a path. -/
inductive Cause where
  | missing
  | notDirectory
  | isDirectory
  | alreadyThere
  | nameTooLong
  | invalid
  deriving Repr, DecidableEq

/-- The wording of a cause. -/
def Cause.message : Cause → Bytes
  | missing => bytes "no such file or directory"
  | notDirectory => bytes "not a directory"
  | isDirectory => bytes "is a directory"
  | alreadyThere => bytes "file exists"
  | nameTooLong => bytes "file name too long"
  | invalid => bytes "invalid argument"

/-- An operation that failed, with the path as it was given. -/
structure Fault where
  operation : Bytes
  path : Bytes
  cause : Cause
  deriving Repr, DecidableEq

/-- The wording of a fault. -/
def Fault.message (fault : Fault) : Bytes :=
  fault.operation ++ [32] ++ fault.path ++ bytes ": " ++ fault.cause.message

/-- The longest name of an entry. -/
def maxName : Nat := 255

/-- The longest path. -/
def maxPath : Nat := 4095

/-- Follows segments from a place. Only the last one may lead to where nothing is yet. -/
def follow (root : Folder) : (segments : List Bytes) → (place : List Bytes) →
    Except Cause (List Bytes)
  | [], place => .ok place
  | segment :: rest, place =>
    match root.walk place with
    | none => .error .missing
    | some (.file _) => .error .notDirectory
    | some (.dir folder) =>
      if segment = [] || segment = Path.here then follow root rest place
      else if segment = Path.up then follow root rest place.dropLast
      else if maxName < segment.length then .error .nameTooLong
      else if (Folder.find? segment folder).isNone && !rest.isEmpty then .error .missing
      else follow root rest (place ++ [segment])

/-- The place to which a path leads. -/
def locate (disk : Disk) (path : Bytes) : Except Cause (List Bytes) :=
  if path = [] then .error .missing
  else if path.contains 0 then .error .invalid
  else if maxPath < path.length then .error .nameTooLong
  else follow disk.root (Bytes.splitOn Path.slash path) (if Path.isAbsolute path then [] else disk.cwd)

/-- What is at a path. -/
def entry (disk : Disk) (path : Bytes) : Except Cause Entry := do
  match disk.root.walk (← disk.locate path) with
  | some entry => return entry
  | none => throw .missing

/-- What is at a path, for an operation that needs it. -/
def entryFor (operation : Bytes) (disk : Disk) (path : Bytes) : Except Fault Entry :=
  match disk.entry path with
  | .ok entry => .ok entry
  | .error cause => .error ⟨operation, path, cause⟩

/-- Opens what is at a path. A directory can be opened, though not read. -/
def openAt (disk : Disk) (path : Bytes) : Except Fault Entry := disk.entryFor (bytes "open") path

/-- The contents of the file at a path. -/
def read (disk : Disk) (path : Bytes) : Except Fault Bytes := do
  match ← disk.openAt path with
  | .file data => return data
  | .dir _ => throw ⟨bytes "read", path, .isDirectory⟩

/-- An entry put at a place whose parent is a directory. -/
def put (disk : Disk) (place : List Bytes) (entry : Entry) : Disk :=
  match place.getLast? with
  | none => disk
  | some name => { disk with root := disk.root.update (Folder.insert name entry) place.dropLast }

/-- A path without the slashes at its end; of the root one is left. -/
def trimEnd (path : Bytes) : Bytes :=
  let kept := (path.reverse.dropWhile (· == Path.slash)).reverse
  if kept = [] then path.take 1 else kept

/-- Writes a file; one that is there is replaced. A path that ends in a slash names no file. -/
def write (disk : Disk) (path data : Bytes) : Except Fault Disk :=
  let refuse (cause : Cause) : Except Fault Disk := .error ⟨bytes "open", path, cause⟩
  match disk.locate (trimEnd path) with
  | .error cause => refuse cause
  | .ok place =>
    if path.getLast? = some Path.slash then refuse .isDirectory
    else
      match disk.root.walk place with
      | some (.dir _) => refuse .isDirectory
      | _ => .ok (disk.put place (.file data))

/-- Makes one directory; its parent has to be there. -/
def makeDir (disk : Disk) (path : Bytes) : Except Fault Disk :=
  let refuse (cause : Cause) : Except Fault Disk := .error ⟨bytes "mkdir", path, cause⟩
  match disk.locate (trimEnd path) with
  | .error cause => refuse cause
  | .ok place =>
    match disk.root.walk place with
    | some (.dir _) => .ok disk
    | some (.file _) => refuse .alreadyThere
    | none => .ok (disk.put place (.dir []))

/-- The path of the directory that holds what a path names; empty if the path does not tell. -/
def parentOf (path : Bytes) : Bytes := ((Path.splitLast (trimEnd path)).1).dropLast

/-- A disk after some steps: the disk as it is left, whether all steps went through or one failed. -/
structure Change where
  disk : Disk
  fault? : Option Fault

/-- Makes a directory and those above it that are not there. The first argument bounds the number
of directories. -/
def makeDirsAux : (limit : Nat) → Disk → Bytes → Change
  | 0, disk, _ => ⟨disk, none⟩
  | limit + 1, disk, path =>
    match disk.entry path with
    | .ok (.dir _) => ⟨disk, none⟩
    | .ok (.file _) => ⟨disk, some ⟨bytes "mkdir", path, .notDirectory⟩⟩
    | .error _ =>
      let above := parentOf path
      let made := if above = [] then ⟨disk, none⟩ else makeDirsAux limit disk above
      match made.fault? with
      | some _ => made
      | none =>
        match made.disk.makeDir path with
        | .ok disk => ⟨disk, none⟩
        | .error fault => ⟨made.disk, some fault⟩

/-- Makes a directory and those above it that are not there. -/
def makeDirs (disk : Disk) (path : Bytes) : Change :=
  makeDirsAux (path.length + 1) disk path

/-- Takes away what is at a path, with all below it. -/
def remove (disk : Disk) (path : Bytes) : Disk :=
  match disk.locate (trimEnd path) with
  | .error _ => disk
  | .ok place =>
    match place.getLast? with
    | none => disk
    | some name => { disk with root := disk.root.update (Folder.erase name) place.dropLast }

/-- The files below a directory, each with its path from there, in the order of a walk. -/
def filesBelow (disk : Disk) (path : Bytes) : List (Bytes × Bytes) :=
  match disk.entry path with
  | .ok (.dir folder) =>
    (Folder.listing folder).filterMap fun (place, data?) =>
      data?.map fun data => (Bytes.join Path.root place, data)
  | _ => []

end Disk

end BuildScript
