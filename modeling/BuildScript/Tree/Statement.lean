import BuildScript.Text.Template
import BuildScript.Tree.Condition
import BuildScript.Tree.FoldName

/-!
# Statements

A script is a tree of statements: actions at the leaves, and sequences, folds and branches above
them. A place for a statement may be empty, which counts as doing nothing, or hold a reference.

* `Statement.isNoop`: the statements that do nothing and leave no trace.
* `Statement.block`, `Statement.run`, `Statement.exporting`, `Statement.when`, `Statement.either`,
  `Statement.fold?`: the usual ways to build a tree.
-/

namespace BuildScript

/-- A node of a script tree. -/
inductive Statement where
  /-- No statement. -/
  | missing
  /-- Does nothing. -/
  | noop
  /-- Runs its statements in order. -/
  | sequence (statements : List Statement)
  /-- Groups the output of its body under a name. -/
  | fold (name : Bytes) (body : Statement)
  /-- Runs one command. -/
  | action (command : Command) (options : List CommandOption)
  /-- Runs one of two statements. -/
  | branch (condition : Condition) (onTrue onFalse : Statement)
  /-- A statement kept elsewhere. -/
  | reference (statement : Statement)
  deriving Inhabited, Repr, BEq

namespace Statement

/-- The name of the statement's type. -/
def typeName : Statement → Bytes
  | missing => bytes "<nil>"
  | noop => bytes "ast.NoopStatement"
  | sequence _ => bytes "ast.Sequence"
  | fold _ _ => bytes "ast.Fold"
  | action _ _ => bytes "ast.Action"
  | branch _ _ _ => bytes "ast.If"
  | reference statement => bytes "*" ++ typeName statement

/-- Whether a statement does nothing. A sequence does something even when it is empty. -/
def isNoop : Statement → Bool
  | missing | noop => true
  | _ => false

theorem eq_of_isNoop {statement : Statement} (h : statement.isNoop = true) :
    statement = missing ∨ statement = noop := by
  cases statement with
  | missing => exact Or.inl rfl
  | noop => exact Or.inr rfl
  | sequence _ | fold _ _ | action _ _ | branch _ _ _ | reference _ => cases h

/-- Whether a statement is a branch itself. -/
def isBranch : Statement → Bool
  | branch _ _ _ => true
  | _ => false

/-- An empty place is filled with the statement that does nothing. -/
def orNoop : Statement → Statement
  | missing => noop
  | statement => statement

/-- Statements in a row. -/
def block (statements : List Statement) : Statement := sequence statements

/-- One command with its options. -/
def run (command : Command) (options : List CommandOption) : Statement :=
  action command options

/-- Exports a variable. -/
def exporting (key value : Bytes) : Statement := run (.setEnv key value) []

/-- Runs the statements if the condition holds. -/
def when (condition : Condition) (statements : List Statement) : Statement :=
  branch condition (block statements) noop

/-- Runs one of two statements. -/
def either (condition : Condition) (onTrue onFalse : Statement) : Statement :=
  branch condition onTrue onFalse.orNoop

/-- Groups `body` under `name`, if the name can stand on a marker line. -/
def fold? (name : Bytes) (body : Statement) : Except FoldName.Fault Statement := do
  FoldName.check name
  return fold name body.orNoop

end Statement

/-- Shell text from a template; without arguments the template is taken as it stands. -/
def Command.filled (template : Bytes) (arguments : List Template.Argument) : Command :=
  .raw (if arguments.isEmpty then template else Template.fill template arguments)

end BuildScript
