import BuildScript.Files.Disk
import BuildScript.Job.Load
import BuildScript.Text.Url

/-!
# Fetching a job

A job is fetched from a source: a path on the disk, or an address, possibly with the way to get it
ahead of two colons and an inner path after two slashes. Only files of the disk can be fetched.

* `Source.file`: the file that a source names.
* `Job.fetch`: the job at a source.
* `Job.loadFile`: the job in a file.
-/

namespace BuildScript

namespace Source

/-- Why nothing can be fetched. -/
inductive Fault where
  | malformed
  /-- The way to get it is not known. -/
  | unsupported (kind : Bytes)
  /-- It can only be had over a network. -/
  | remote
  /-- It would have to be unpacked or checked. -/
  | packed
  | file (cause : Disk.Cause)
  deriving Repr, DecidableEq

/-- The wording of a fault. -/
def Fault.message : Fault → Bytes
  | malformed => bytes "invalid source string"
  | unsupported kind => bytes "download not supported for scheme '" ++ kind ++ bytes "'"
  | remote => bytes "no network"
  | packed => bytes "cannot unpack or check the source"
  | file cause => bytes "source path error: " ++ cause.message

/-- The way to get a source, ahead of two colons, and the rest; empty if there is none. -/
def splitKind (s : Bytes) : Bytes × Bytes :=
  let kind := s.takeWhile fun b => Url.isLetter b || Bytes.isDigit b
  match s.drop kind.length with
  | 58 :: 58 :: rest => if kind = [] || rest = [] || rest.contains 10 then ([], s) else (kind, rest)
  | _ => ([], s)

/-- Where a text first occurs in another one. -/
def indexOf? (part : Bytes) : Bytes → Option Nat
  | [] => if part = [] then some 0 else none
  | b :: rest =>
    if Bytes.startsWith part (b :: rest) then some 0 else (indexOf? part rest).map (· + 1)

/-- A source without its inner path, which follows two slashes, and the inner path. The slashes of
`://` do not count, nor what is in a query, which stays with the source. -/
def splitInner (s : Bytes) : Bytes × Bytes :=
  let plain := (Bytes.cut 63 s).1
  let start := ((indexOf? (bytes "://") plain).map (· + 3)).getD 0
  match indexOf? (bytes "//") (plain.drop start) with
  | none => (s, [])
  | some i =>
    let (inner, query?) := Bytes.cut 63 (s.drop (start + i + 2))
    let query := (query?.map (63 :: ·)).getD []
    (s.take (start + i) ++ query, inner)

/-- The hosts whose paths are known to be remote. -/
def hosts : List Bytes := [bytes "github.com/", bytes "gitlab.com/", bytes "bitbucket.org/"]

/-- The parts of host names that are known to be remote. -/
def services : List Bytes := [bytes ".amazonaws.com/", bytes ".googleapis.com/"]

/-- Whether a source is a login to a host with a path there. -/
def isLogin (s : Bytes) : Bool :=
  Bytes.startsWith (bytes "git@") s
    && match Bytes.cut 58 (s.drop 4) with
      | (host, some path) => host != [] && path != [] && !path.contains 10
      | _ => false

/-- Whether a source that is not an address stands for something remote. -/
def isRemote (s : Bytes) : Bool :=
  hosts.any (Bytes.startsWith · s) || isLogin s || services.any fun part => (indexOf? part s).isSome

/-- A source as an address. What is not one already is a path on the disk, from the directory `cwd`
unless it is absolute. -/
def address (cwd s : Bytes) : Except Fault Bytes :=
  let (base, _) := splitInner s
  match Url.parse? base with
  | some ⟨_ :: _, _, _, _⟩ => .ok s
  | _ =>
    if base = [] then .error .malformed
    else if isRemote base then .error .remote
    else
      let path := if base.head? = some 47 then base else Path.join [cwd, base]
      let inner := (splitInner s).2
      .ok (bytes "file:///" ++ path.drop 1
        ++ if inner = [] then [] else bytes "//" ++ inner)

/-- The endings of packed files. -/
def packings : List Bytes :=
  [bytes "bz2", bytes "gz", bytes "xz", bytes "tar.bz2", bytes "tar.gz", bytes "tar.xz",
    bytes "tbz2", bytes "tgz", bytes "txz", bytes "zip"]

/-- Whether an address names something that would have to be unpacked or checked. -/
def isPacked (url : Url) : Bool :=
  let archive := url.parameter (bytes "archive")
  url.parameter (bytes "checksum") != []
    || if archive = [] then packings.any fun ending => (46 :: ending).isSuffixOf url.path
      else packings.contains archive

/-- The path of the file that a source names, and its inner path. -/
def file (cwd source : Bytes) : Except Fault (Bytes × Bytes) := do
  let (kind, rest) := splitKind source
  let (found, rest) := splitKind (← address cwd rest)
  let (base, inner) := splitInner rest
  match Url.parse? base with
  | none => throw .malformed
  | some url =>
    let kind := if kind != [] then kind else if found != [] then found else url.scheme
    if kind != bytes "file" then throw (.unsupported kind)
    else if isPacked url then throw .packed
    else return (url.filePath, inner)

end Source

/-- Why a job cannot be had. -/
inductive JobFault where
  | source (name : Bytes) (fault : Source.Fault)
  | file (fault : Disk.Fault)
  | load (fault : LoadFault)
  deriving Repr, DecidableEq

/-- The wording of a fault. -/
def JobFault.message : JobFault → Bytes
  | source name fault => bytes "fetching payload from " ++ name ++ bytes ": " ++ fault.message
  | file fault => fault.message
  | load fault => fault.message

/-- What is wrong with a text of a format that cannot be read to its end. -/
def Format.unreadable : Format → LoadFault
  | json => .json .malformed
  | yaml => .yaml .malformed

namespace Job

/-- A job that was loaded from a text. -/
def loaded : Except LoadFault Job → Except JobFault Job
  | .ok job => .ok job
  | .error fault => .error (.load fault)

/-- The job in a file, whose name tells the format. -/
def loadFile (disk : Disk) (path : Bytes) : Except JobFault Job :=
  match disk.openAt path with
  | .error fault => .error (.file fault)
  | .ok (.dir _) => .error (.load (Format.ofName path).unreadable)
  | .ok (.file text) => loaded (loadAs (Format.ofName path) text)

/-- The job at a source. The source tells the format unless that is given. An inner path finds
nothing in a single file. -/
def fetch (disk : Disk) (source format : Bytes) : Except JobFault Job :=
  let refuse (fault : Source.Fault) : Except JobFault Job := .error (.source source fault)
  match Source.file (Folder.pathOf disk.cwd false) source with
  | .error fault => refuse fault
  | .ok (path, inner) =>
    match disk.entry path with
    | .error cause => refuse (.file cause)
    | .ok (.dir _) => refuse (.file .isDirectory)
    | .ok (.file text) =>
      if inner != [] then .error (.file ⟨bytes "open", inner, .missing⟩)
      else loaded (load (if format = [] then (Format.ofName source).name else format) text)

end Job

end BuildScript
