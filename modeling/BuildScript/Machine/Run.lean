import BuildScript.Machine.Operation
import BuildScript.Tree.Statement

/-!
# Running a script tree

Statements run from left to right on a machine. A run ends at the first fault, and shows how far it
got: the machine as the completed actions left it, and the events up to there.

* `Machine.eval`: the value of a condition; both sides of a connective are always evaluated.
* `Machine.perform`: one command.
* `Machine.run`: a statement.
-/

namespace BuildScript

/-- Why a run ends early. -/
inductive RunFault where
  /-- A path that could not be written into a script. -/
  | path (fault : PathFault)
  /-- A file operation failed. -/
  | file (fault : FileFault)
  /-- A place for a statement that holds none. -/
  | statement (typeName : Bytes)
  /-- A place for a command that holds none. -/
  | command (typeName : Bytes)
  /-- A condition without a value on the machine. -/
  | condition (what : Bytes)
  deriving Repr, DecidableEq

/-- The wording of a fault. -/
def RunFault.message : RunFault → Bytes
  | path fault => fault.message
  | file fault => fault.message
  | statement typeName => typeName ++ bytes ": unknown statement"
  | command typeName => typeName ++ bytes ": command has no in-memory semantics"
  | condition what => what ++ bytes ": condition cannot be evaluated in memory"

/-- How far a run got. -/
structure Outcome where
  machine : Machine
  events : List Event
  fault? : Option RunFault
  deriving Repr, BEq

namespace Outcome

/-- Something that was done. -/
def done : Machine × List Event → Outcome
  | (machine, events) => ⟨machine, events, none⟩

/-- A fault before anything was done. -/
def failed (machine : Machine) (fault : RunFault) : Outcome := ⟨machine, [], some fault⟩

/-- A file operation on a machine. -/
def ofChange (change : Machine.Change) : Outcome :=
  ⟨change.machine, change.events, change.fault?.map .file⟩

/-- Goes on where a run ended, unless it ended early. -/
def andThen (first : Outcome) (next : Machine → Outcome) : Outcome :=
  match first.fault? with
  | some _ => first
  | none =>
    let second := next first.machine
    ⟨second.machine, first.events ++ second.events, second.fault?⟩

end Outcome

namespace Machine

/-- A test of a path. -/
def evalPath (flag path : Bytes) (value : Bytes → Bool) : Except RunFault Bool :=
  match checkPath (bytes "test " ++ flag) path with
  | .ok () => .ok (value path)
  | .error fault => .error (.path fault)

/-- The value of a condition. -/
def eval (machine : Machine) : Condition → Except RunFault Bool
  | .present path => evalPath (bytes "-e") path machine.hasEntry
  | .isDirectory path => evalPath (bytes "-d") path machine.hasDirectory
  | .isFile path => evalPath (bytes "-f") path machine.hasFile
  | .succeeds command => .error (.condition (bytes "command " ++ command.dump))
  | .and left right => do
    let l ← machine.eval left
    let r ← machine.eval right
    return l && r
  | .or left right => do
    let l ← machine.eval left
    let r ← machine.eval right
    return l || r
  | .not inner => do
    let value ← machine.eval inner
    return !value
  | .missing => .error (.condition Condition.missing.typeName)
  | .reference condition => .error (.condition (Condition.reference condition).typeName)

/-- Goes on if a path can be written into a script. -/
def withPath (machine : Machine) (check : Except PathFault Unit) (next : Unit → Outcome) : Outcome :=
  match check with
  | .ok () => next ()
  | .error fault => .failed machine (.path fault)

/-- Runs one command. -/
def perform (machine : Machine) (command : Command) (options : List CommandOption) : Outcome :=
  match command with
  | .raw text => .done (machine.logged text options)
  | .echo text => .done (machine.logged (bytes "echo " ++ text) options)
  | .newline => .done (machine.logged (bytes "echo") options)
  | .setEnv key value => .done (machine.setEnv key value)
  | .changeDir path =>
    machine.withPath (checkPath (bytes "cd") path) fun _ => .done (machine.changeDir path)
  | .writeFile path data =>
    machine.withPath (checkPath (bytes "write") path) fun _ =>
      .ofChange (machine.put path data)
  | .makeDir path =>
    machine.withPath (checkPath (bytes "mkdir") path) fun _ =>
      .ofChange (machine.makeDir path)
  | .copy source target =>
    machine.withPath (checkPaths (bytes "cp") source target) fun _ =>
      .ofChange (machine.copy source target)
  | .move source target =>
    machine.withPath (checkPaths (bytes "mv") source target) fun _ =>
      .ofChange (machine.move source target)
  | .remove path =>
    machine.withPath (checkPath (bytes "rm") path) fun _ => .done (machine.remove path)
  | .missing | .reference _ => .failed machine (.command command.typeName)

mutual
/-- Runs a statement. -/
def run (machine : Machine) : Statement → Outcome
  | .missing | .noop => .done (machine, [])
  | .sequence statements => machine.runAll statements
  | .fold name body =>
    ((Outcome.done (machine, [.fold name true])).andThen fun m => m.run body).andThen fun m =>
      .done (m, [.fold name false])
  | .action command options => machine.perform command options
  | .branch condition onTrue onFalse =>
    match machine.eval condition with
    | .error fault => .failed machine fault
    | .ok true => machine.run onTrue
    | .ok false => machine.run onFalse
  | .reference statement =>
    .failed machine (.statement (Statement.reference statement).typeName)
/-- Runs statements one after the other. -/
def runAll (machine : Machine) : List Statement → Outcome
  | [] => .done (machine, [])
  | statement :: rest => (machine.run statement).andThen fun m => m.runAll rest
end

end Machine

end BuildScript
