import BuildScript.Path

/-!
# File trees

A folder is a list of named entries in the byte order of their names, so that a tree has one form. A
place in a tree is the list of names that leads to it from the top.

* `Folder.walk`: the entry at a place.
* `Folder.insert`, `Folder.replace`, `Folder.erase`, `Folder.update`: changes to a folder, and to one
  further down.
* `Folder.makeDirs`: folders made along a way, as far as no file is in it.
* `Folder.merge`: one tree laid over another.
* `Folder.listing`, `Folder.paths`: all that is in a tree, each folder before what it holds.
-/

namespace BuildScript

/-- What a name in a folder stands for. -/
inductive Entry where
  /-- A regular file. -/
  | file (data : Bytes)
  /-- A directory. -/
  | dir (entries : List (Bytes × Entry))
  deriving Inhabited, Repr, BEq

/-- The entries of a directory with their names. -/
abbrev Folder := List (Bytes × Entry)

namespace Entry

/-- Whether an entry is a directory. -/
def isDir : Entry → Bool
  | file _ => false
  | dir _ => true

/-- What a regular file holds. -/
def data? : Entry → Option Bytes
  | file data => some data
  | dir _ => none

end Entry

namespace Folder

/-- The entry with a name. -/
def find? (name : Bytes) : Folder → Option Entry
  | [] => none
  | (key, entry) :: rest => if key = name then some entry else find? name rest

/-- Puts an entry at its place in the order of names; an entry of the same name is replaced. -/
def insert (name : Bytes) (entry : Entry) : Folder → Folder
  | [] => [(name, entry)]
  | (key, old) :: rest =>
    if key = name then (name, entry) :: rest
    else if Bytes.before name key then (name, entry) :: (key, old) :: rest
    else (key, old) :: insert name entry rest

/-- Puts an entry in place of the one with a name; nothing happens where there is none. -/
def replace (name : Bytes) (entry : Entry) : Folder → Folder
  | [] => []
  | (key, old) :: rest =>
    if key = name then (key, entry) :: rest else (key, old) :: replace name entry rest

/-- Takes away the entry with a name. -/
def erase (name : Bytes) : Folder → Folder
  | [] => []
  | (key, entry) :: rest => if key = name then rest else (key, entry) :: erase name rest

/-- The names in a folder. -/
def names (folder : Folder) : List Bytes := folder.map Prod.fst

/-- The entry at a place. There is none if a name on the way is not there or is that of a file. -/
def walk : Folder → (place : List Bytes) → Option Entry
  | folder, [] => some (.dir folder)
  | folder, [name] => find? name folder
  | folder, name :: next :: rest =>
    match find? name folder with
    | some (.dir inner) => walk inner (next :: rest)
    | _ => none

/-- Changes the folder at a place; nothing happens where there is no folder. -/
def update (change : Folder → Folder) : (place : List Bytes) → Folder → Folder
  | [], folder => change folder
  | name :: rest, folder =>
    match find? name folder with
    | some (.dir inner) => replace name (.dir (update change rest inner)) folder
    | _ => folder

/-- Makes the folders along a way, from the top down. A file in it ends the walk: the tree is left
as the walk has made it up to there, and the place of the file is given. -/
def makeDirs : (place : List Bytes) → Folder → Folder × Option (List Bytes)
  | [], folder => (folder, none)
  | name :: rest, folder =>
    match find? name folder with
    | none =>
      let (made, stop?) := makeDirs rest []
      (insert name (.dir made) folder, stop?.map (name :: ·))
    | some (.dir inner) =>
      let (made, stop?) := makeDirs rest inner
      (replace name (.dir made) folder, stop?.map (name :: ·))
    | some (.file _) => (folder, some [name])

mutual
/-- What stands at a name when `source` is laid over what is there: two directories are merged, and
anything else is replaced. -/
def overlay : (source : Entry) → (old : Option Entry) → Entry
  | .dir inner, some (.dir outer) => .dir (merge inner outer)
  | source, _ => source
/-- A tree laid over another one. -/
def merge : (source target : Folder) → Folder
  | [], target => target
  | (name, entry) :: rest, target =>
    merge rest (insert name (overlay entry (find? name target)) target)
end

mutual
/-- An entry and all below it, with their places. -/
def entryListing (place : List Bytes) : Entry → List (List Bytes × Option Bytes)
  | .file data => [(place, some data)]
  | .dir entries => (place, none) :: listingAt place entries
/-- All that is in a folder at a place. -/
def listingAt (place : List Bytes) : Folder → List (List Bytes × Option Bytes)
  | [] => []
  | (name, entry) :: rest => entryListing (place ++ [name]) entry ++ listingAt place rest
end

/-- All that is in a tree: the place of each entry, and the contents of each file. -/
def listing (folder : Folder) : List (List Bytes × Option Bytes) := listingAt [] folder

/-- The path of a place; directories end in a slash. -/
def pathOf (place : List Bytes) (isDir : Bool) : Bytes :=
  place.flatMap (Path.slash :: ·) ++ (if isDir then Path.root else [])

/-- The path under which a place is listed: from the root on, each name is joined to the path above it.
Directories end in a slash. -/
def listedPath (place : List Bytes) (isDir : Bool) : Bytes :=
  place.foldl (fun path name => Path.join [path, name]) Path.root ++ (if isDir then Path.root else [])

/-- The paths of all entries with the contents of files. -/
def files (folder : Folder) : List (Bytes × Option Bytes) :=
  folder.listing.map fun (place, data?) => (listedPath place data?.isNone, data?)

/-- The paths of all entries. -/
def paths (folder : Folder) : List Bytes := folder.files.map Prod.fst

end Folder

end BuildScript
