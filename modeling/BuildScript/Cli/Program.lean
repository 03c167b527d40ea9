import BuildScript.Cli.Report
import BuildScript.Cli.Settings
import BuildScript.Cli.Task
import BuildScript.Job.Fetch
import BuildScript.Machine.Run
import BuildScript.Store.Bundle
import BuildScript.Store.Upload

/-!
# The program

* `Cli.run`: runs a command line.
* `Machine.dump`: the text that shows the final state of a machine.
-/

namespace BuildScript

/-- The least power of two that is not below `n`. -/
def powerAbove (n : Nat) : Nat := if n ≤ 1 then 1 else Nat.pow 2 ((n - 1).log2 + 1)

namespace Machine

/-- A path in the dump of a machine. -/
def dumpPath (path : Bytes) : Bytes :=
  bytes " (string) (len=" ++ Bytes.ofNat path.length ++ bytes ") " ++ Quoted.quote path

/-- The text that shows the final state of a machine. -/
def dump (machine : Machine) : Bytes :=
  let paths := machine.root.paths
  bytes "\nworking dir: " ++ machine.cwd ++ bytes "\nenv:\n"
    ++ machine.env.flatMap (fun (key, value) => bytes "  " ++ key ++ [61] ++ value ++ [10])
    ++ bytes "files:\n([]string) "
    ++ (if paths.isEmpty then bytes "<nil>\n"
      else
        bytes "(len=" ++ Bytes.ofNat paths.length
          ++ bytes " cap=" ++ Bytes.ofNat (powerAbove paths.length) ++ bytes ") \x7b\n"
          ++ Bytes.join (bytes ",\n") (paths.map dumpPath) ++ bytes "\n\x7d\n")

/-- Puts empty files on a machine. -/
def putAll (machine : Machine) : List Bytes → Except FileFault Machine
  | [] => .ok machine
  | path :: rest =>
    let change := machine.put path []
    match change.fault? with
    | none => change.machine.putAll rest
    | some fault => .error fault

end Machine

namespace Cli

/-- The job that a source names; a dash stands for the input. -/
def loadJob (world : World) (format source : Bytes) : Except JobFault Job :=
  if source = bytes "-" then Job.loaded (Job.load format world.input)
  else Job.fetch world.disk source format

/-- The contents of the file that a setting names, or a default if none is named. -/
def template (world : World) (settings : Settings) (key default : Bytes) :
    Except SettingsFault Bytes := do
  let named := settings.get key []
  if named = [] then return default
  else
    match world.disk.read (← expandHome world.home named) with
    | .ok text => return text
    | .error fault => throw (.template key fault)

/-- What scripts are put between, and where they go. -/
structure Layout where
  header : Bytes
  footer : Bytes
  dir : Bytes

/-- The layout that settings ask for. -/
def Layout.ofSettings (world : World) (settings : Settings) : Except SettingsFault Layout := do
  let header ← template world settings (bytes "header") Frame.defaultHeader
  let footer ← template world settings (bytes "footer") Frame.defaultFooter
  let dir ← expandHome world.home (settings.get (bytes "output_dir") Path.here)
  return ⟨header, footer, if dir = [] then Path.here else dir⟩

/-- The format that settings ask for. -/
def Settings.format (settings : Settings) : Bytes := settings.get (bytes "format") []

/-- Goes on with a result, or ends with the message of its fault. -/
def continuing {ε α : Type} (world : World) (message : ε → Bytes) (result : Except ε α)
    (next : α → Report) : Report :=
  match result with
  | .ok a => next a
  | .error fault => .failed world.disk [] (message fault)

/-- Compiles a job and prints its script, or keeps it and prints its id. -/
def compileTask (world : World) (settings : Settings) (source : Bytes) : Report :=
  continuing world JobFault.message (loadJob world settings.format source) fun job =>
    continuing world SettingsFault.message (Layout.ofSettings world settings) fun layout =>
      if settings.line.switch (bytes "print") then
        continuing world Script.Fault.message (Script.compile layout.header layout.footer job)
          fun compiled => .done world.disk compiled.text
      else
        let saved :=
          Store.save ⟨world.disk, layout.dir⟩ layout.header layout.footer job world.newId
        match saved.result with
        | .ok record => .done saved.store.disk (record.id ++ [10])
        | .error fault => .failed saved.store.disk [] fault.message

/-- Runs a job on a fresh machine with some files on it, and prints what happens. -/
def runTask (world : World) (settings : Settings) (source : Bytes) : Report :=
  continuing world JobFault.message (loadJob world settings.format source) fun job =>
    continuing world UnknownLanguage.message (Script.tree job) fun tree =>
      continuing world FileFault.message (Machine.fresh.putAll (settings.line.list (bytes "file")))
        fun machine =>
          let outcome := machine.run tree
          let trace := Event.trace outcome.events
          match outcome.fault? with
          | some fault => .failed world.disk trace fault.message
          | none =>
            .done world.disk
              (trace ++ if settings.line.switch (bytes "dump") then outcome.machine.dump else [])

/-- Prints the fingerprint of a job's script and the hash of the job. Faults are printed too. -/
def sumTask (world : World) (settings : Settings) (source : Bytes) : Report :=
  let failed (what message : Bytes) : Report :=
    ⟨1, bytes "error " ++ what ++ bytes ": " ++ message ++ [10], [], world.disk⟩
  match loadJob world settings.format source with
  | .error fault => failed (bytes "loading payload") fault.message
  | .ok job =>
    match Script.tree job with
    | .error fault => failed (bytes "generating script") fault.message
    | .ok tree =>
      .done world.disk
        (bytes "Fingerprint: " ++ tree.fingerprint ++ bytes "\nPayload: " ++ job.hash ++ [10])

/-- Bundles scripts one after the other and prints the paths of the bundles. `printed` is what was
printed so far. -/
def bundleAll (store : Store) (printed : Bytes) : List Bytes → Report
  | [] => .done store.disk printed
  | id :: rest =>
    match store.bundle id with
    | .ok (store, path) => bundleAll store (printed ++ path ++ [10]) rest
    | .error fault => .failed store.disk printed fault.message

/-- Bundles the scripts with some ids. -/
def bundleTask (world : World) (settings : Settings) (ids : List Bytes) : Report :=
  continuing world SettingsFault.message (Layout.ofSettings world settings) fun layout =>
    bundleAll ⟨world.disk, layout.dir⟩ [] ids

/-- Uploads scripts one after the other. -/
def uploadAll (store : Store) (bucket : Bucket) (printed : Bytes) : List Bytes → Report
  | [] => .done store.disk printed
  | id :: rest =>
    match (store.upload bucket id).fault? with
    | none => uploadAll store bucket printed rest
    | some fault => .failed store.disk printed fault.message

/-- A bucket out of reach, which refuses every object: without a region there is nobody to ask. -/
def unreachable (world : World) (name : Bytes) : Bucket :=
  let hasRegion := world.env.any fun (key, value) => key = bytes "AWS_REGION" && value != []
  let reason :=
    if hasRegion then bytes "no upload service in reach"
    else bytes "MissingRegion: could not find region configuration"
  ⟨name, fun _ => some reason⟩

/-- Uploads the scripts with some ids. -/
def uploadTask (world : World) (settings : Settings) (ids : List Bytes) : Report :=
  let name := settings.get (bytes "bucket") []
  if name = [] then
    .failed world.disk []
      (bytes "no bucket configured, pass --bucket or set bucket in the config")
  else
    continuing world SettingsFault.message (Layout.ofSettings world settings) fun layout =>
      uploadAll ⟨world.disk, layout.dir⟩ (unreachable world name)
        (bytes "+ Uploading scripts to " ++ name ++ bytes "...\n") ids

/-- How the program is used. -/
def usage : Bytes :=
  bytes ("Usage:\n  cibuild compile PAYLOAD\n  cibuild run PAYLOAD\n  cibuild sum PAYLOAD\n"
    ++ "  cibuild bundle ID...\n  cibuild upload ID...\n")

/-- Does what a request asks for. -/
def perform (world : World) (request : Request) : Report :=
  let settings := Settings.ofLine world request.line
  let arguments := request.line.arguments
  let source := arguments.headD []
  match request.task with
  | .compile => compileTask world settings source
  | .run => runTask world settings source
  | .sum => sumTask world settings source
  | .bundle => bundleTask world settings arguments
  | .upload => uploadTask world settings arguments
  | .help => .done world.disk usage

/-- Runs a command line. -/
def run (world : World) (arguments : List Bytes) : Report :=
  match Request.ofArguments arguments with
  | .ok request => perform world request
  | .error fault => .failed world.disk [] (bytes "Error: " ++ fault.message ++ [10] ++ usage)

end Cli

end BuildScript
