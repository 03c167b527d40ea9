import BuildScript.Cli.Footprint
import BuildScript.Store.Ulid
import Std.Time.DateTime.Timestamp

/-!
# The command line

Reads from the real disk what a command may look at, runs the command, and writes back what it
changed. The program whose name ends in `-compile` is the compiler on its own.
-/

namespace BuildScript.Main

/-- The bytes of a word. -/
def ofString (s : String) : Bytes := s.toUTF8.toList

/-- A path as the system takes it. -/
def toString? (s : Bytes) : Option String := String.fromUTF8? ⟨s.toArray⟩

/-- Takes over what is at an absolute path; the contents of a directory are not looked at. -/
def takeOver (disk : Disk) (path : Bytes) : IO Disk := do
  let some name := toString? path | return disk
  let file := (← IO.currentDir) / name
  if ← file.isDir then return (disk.makeDirs path).disk
  else if ← file.pathExists then
    let data ← IO.FS.readBinFile file
    return (disk.write path data.toList).toOption.getD disk
  else return disk

/-- Takes over what is passed on the way to some paths. -/
def takeOverAll (cwd : Bytes) (disk : Disk) (paths : List Bytes) : IO Disk :=
  (paths.flatMap (Cli.Footprint.waypoints cwd)).foldlM takeOver disk

/-- Writes back a change. Scripts can be run; records and bundles cannot. -/
def keep (change : Bytes × Option Bytes) : IO Unit := do
  let some name := toString? change.1 | return ()
  match change.2 with
  | none => IO.FS.createDirAll name
  | some data =>
    IO.FS.writeBinFile name ⟨data.toArray⟩
    let plain := (bytes ".info.json").isSuffixOf change.1 || (bytes ".tar.gz").isSuffixOf change.1
    unless plain do
      let all : IO.AccessRight := ⟨true, true, true⟩
      let others : IO.AccessRight := ⟨true, false, true⟩
      IO.setAccessRights name ⟨all, others, others⟩

/-- A new id. -/
def newId : IO Bytes := do
  let now ← Std.Time.Timestamp.now
  let random ← IO.getRandomBytes 10
  return Ulid.encode now.toMillisecondsSinceUnixEpoch.toInt.toNat
    (random.toList.foldl (fun n b => 256 * n + b.toNat) 0)

/-- The variables that commands look at. -/
def variableNames : List String :=
  ["CIBUILD_OUTPUT_DIR", "CIBUILD_HEADER", "CIBUILD_FOOTER", "CIBUILD_FORMAT", "CIBUILD_BUCKET",
    "AWS_REGION"]

/-- The variables that are set. -/
def readEnv : IO (List (Bytes × Bytes)) :=
  variableNames.filterMapM fun name => do
    return (← IO.getEnv name).map fun value => (ofString name, ofString value)

/-- Runs a command line. -/
def run (arguments : List Bytes) : IO Cli.Report := do
  let alone := ((← IO.appPath).fileName.getD "").endsWith "-compile"
  let cwd := ofString (← IO.currentDir).toString
  let home := ofString ((← IO.getEnv "HOME").getD "")
  let reads :=
    if alone then Cli.Footprint.compilerReadsInput arguments else Cli.Footprint.readsInput arguments
  let input ← if reads then (← IO.getStdin).readBinToEnd else pure ByteArray.empty
  let start ← takeOverAll cwd ⟨[], Path.segments cwd⟩
    (Path.here :: if alone then [] else Cli.Footprint.config home arguments)
  let world : Cli.World := ⟨start, home, ← readEnv, input.toList, ← newId⟩
  let disk ← takeOverAll cwd start
    (if alone then Cli.Footprint.compiler cwd arguments
      else Cli.Footprint.program world cwd arguments)
  let world := { world with disk }
  let report := if alone then Cli.Compiler.run world arguments else Cli.run world arguments
  (Cli.Footprint.changes disk report.disk).forM keep
  return report

end BuildScript.Main

/-- Runs the command line and shows what it reports. -/
def main (arguments : List String) : IO UInt32 := do
  let report ← BuildScript.Main.run (arguments.map BuildScript.Main.ofString)
  (← IO.getStdout).write ⟨report.output.toArray⟩
  (← IO.getStderr).write ⟨report.errors.toArray⟩
  return report.exit.toUInt32
