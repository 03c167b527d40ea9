import BuildScript.Cli.Program

/-!
# The compiler on its own

A second program does nothing but compile: it takes all it needs from flags and knows no settings.

* `Cli.Compiler.run`: runs a command line.
-/

namespace BuildScript.Cli.Compiler

/-- The flags of the compiler. -/
def flags : List Flag :=
  [⟨bytes "payload", some 112, .text⟩, ⟨bytes "output", some 111, .text⟩,
    ⟨bytes "header", none, .text⟩, ⟨bytes "footer", none, .text⟩, ⟨bytes "debug", none, .switch⟩]

/-- The contents of a file, or a default if no file is named. -/
def fileOr (disk : Disk) (path default : Bytes) : Except Disk.Fault Bytes :=
  if path = [] then .ok default else disk.read path

/-- The job that a source names; a dash stands for the input, which is JSON. -/
def loadJob (world : World) (source : Bytes) : Except JobFault Job :=
  if source = bytes "-" then Job.loaded (Job.loadAs .json world.input)
  else Job.fetch world.disk source []

/-- How the compiler is used. -/
def usage : Bytes :=
  bytes "Usage of cibuild-compile:\n  -p, --payload\n  -o, --output\n  --header\n  --footer\n  --debug\n"

/-- Compiles the job of a source. -/
def compile (world : World) (line : Line) (source : Bytes) : Report :=
  let named (flag : String) : Bytes := (line.text? (bytes flag)).getD []
  continuing world JobFault.message (loadJob world source) fun job =>
    continuing world Disk.Fault.message
      (fileOr world.disk (named "header") Frame.defaultHeader) fun header =>
      continuing world Disk.Fault.message
        (fileOr world.disk (named "footer") Frame.defaultFooter) fun footer =>
        continuing world Script.Fault.message (Script.compile header footer job) fun compiled =>
          let target := (line.text? (bytes "output")).getD (bytes "-")
          if target = bytes "-" then .done world.disk compiled.text
          else
            continuing world Disk.Fault.message (world.disk.write target compiled.text) fun disk =>
              .done disk []

/-- Runs a command line. Flags that cannot be read are reported on both channels. -/
def run (world : World) (arguments : List Bytes) : Report :=
  match Flag.parse flags arguments with
  | .error fault =>
    let said := if fault = .help then [] else fault.message ++ [10]
    ⟨2, fault.message ++ [10], said ++ usage, world.disk⟩
  | .ok line =>
    let source := (line.text? (bytes "payload")).getD []
    if source = [] then .failed world.disk [] (bytes "provide a payload to compile")
    else compile world line source

end BuildScript.Cli.Compiler
