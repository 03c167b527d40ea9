import BuildScript.Cli.Flag

/-!
# Tasks

The first word of a command line that is no flag and no value of one names a task. Flags may stand
on both sides of it.

* `Task.words`: the words that are neither flags nor values.
* `Request.ofArguments`: the task that is asked for, with its flags and arguments.
-/

namespace BuildScript.Cli

/-- What the program can do. -/
inductive Task where
  | compile
  | run
  | sum
  | bundle
  | upload
  | help
  deriving Repr, DecidableEq

namespace Task

/-- All tasks. -/
def all : List Task := [compile, run, sum, bundle, upload, help]

/-- The name of a task. -/
def name : Task → Bytes
  | compile => bytes "compile"
  | run => bytes "run"
  | sum => bytes "sum"
  | bundle => bytes "bundle"
  | upload => bytes "upload"
  | help => bytes "help"

/-- The task with a name. -/
def named? (name : Bytes) : Option Task := all.find? fun task => task.name = name

/-- The flags that every task knows. -/
def commonFlags : List Flag :=
  [⟨bytes "config", none, .text⟩, ⟨bytes "debug", none, .switch⟩,
    ⟨bytes "output-dir", some 100, .text⟩, ⟨bytes "header", none, .text⟩,
    ⟨bytes "footer", none, .text⟩, ⟨bytes "format", some 102, .text⟩]

/-- The flag that asks for help. -/
def helpFlag : Flag := ⟨bytes "help", some 104, .switch⟩

/-- The flags that only one task knows. -/
def ownFlags : Task → List Flag
  | compile => [⟨bytes "print", some 112, .switch⟩]
  | run => [⟨bytes "dump", none, .switch⟩, ⟨bytes "file", none, .list⟩]
  | upload => [⟨bytes "bucket", some 98, .text⟩]
  | sum | bundle | help => []

/-- The flags of a task. -/
def flags (task : Task) : List Flag := commonFlags ++ task.ownFlags ++ [helpFlag]

/-- What is wrong with a number of arguments. -/
def arityFault? (task : Task) (count : Nat) : Option Bytes :=
  match task with
  | compile | run | sum =>
    if count = 1 then none
    else some (bytes "accepts 1 arg(s), received " ++ Bytes.ofNat count)
  | bundle | upload =>
    if 1 ≤ count then none
    else some (bytes "requires at least 1 arg(s), only received " ++ Bytes.ofNat count)
  | help => none

/-- Whether a flag is known to be a switch. -/
def isSwitch (flag? : Option Flag) : Bool := flag?.any fun flag => flag.kind = .switch

/-- Whether the word after this one is taken for its value. That also goes for flags that only some
task knows. -/
def takesNext (word : Bytes) : Bool :=
  !word.contains 61
    && match word with
      | 45 :: 45 :: name => !isSwitch (Flag.named? commonFlags name)
      | [45, letter] => !isSwitch (Flag.lettered? commonFlags letter)
      | _ => false

/-- The words that are neither flags nor values. A flag whose value would be the last word ends
them. -/
def words : List Bytes → List Bytes
  | [] => []
  | word :: rest =>
    if word = bytes "--" then []
    else if takesNext word then
      match rest with
      | _ :: next :: more => words (next :: more)
      | _ => []
    else if word.head?.all (· == 45) then words rest
    else word :: words rest

end Task

/-- What is wrong with a command line. -/
inductive UsageFault where
  | unknownTask (name : Bytes)
  | flag (fault : FlagFault)
  | arity (message : Bytes)
  deriving Repr, DecidableEq

/-- The name of the program. -/
def programName : Bytes := bytes "cibuild"

/-- The wording of a fault. -/
def UsageFault.message : UsageFault → Bytes
  | unknownTask name =>
    bytes "unknown command " ++ Quoted.quote name ++ bytes " for " ++ Quoted.quote programName
  | flag fault => fault.message
  | arity message => message

/-- A task with its flags and arguments. -/
structure Request where
  task : Task
  line : Line
  deriving Repr, DecidableEq

namespace Request

/-- Reads the words of a task. -/
def forTask (task : Task) (words : List Bytes) : Except UsageFault Request :=
  match Flag.parse task.flags words with
  | .error fault => .error (.flag fault)
  | .ok line =>
    if line.switch Task.helpFlag.name then .ok ⟨.help, line⟩
    else
      match task.arityFault? line.arguments.length with
      | some message => .error (.arity message)
      | none => .ok ⟨task, line⟩

/-- The task that is asked for. Without one, help is. -/
def ofArguments (arguments : List Bytes) : Except UsageFault Request :=
  match Task.words arguments with
  | [] => forTask .help arguments
  | name :: _ =>
    match Task.named? name with
    | some task => forTask task (arguments.erase name)
    | none => .error (.unknownTask name)

end Request

end BuildScript.Cli
