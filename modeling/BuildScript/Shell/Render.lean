import BuildScript.Shell.Word
import BuildScript.Text.Base64
import BuildScript.Tree.PathText
import BuildScript.Tree.Statement

/-!
# Shell text of a script tree

The text relies on two functions that a script's header defines: `travis_cmd` runs a command, given
as one word, and `travis_fold` prints the marker lines of a fold.

* `Command.render`, `Condition.render`, `Statement.render`: the text of a node, or the first reason
  why it has none.
* `Shell.indent`: a text with every line moved to the right.
-/

namespace BuildScript

namespace Shell

/-- The families of nodes. -/
inductive Family where
  | statement
  | command
  | condition
  deriving Repr, DecidableEq

/-- The name of a family. -/
def Family.name : Family → Bytes
  | statement => bytes "statement"
  | command => bytes "command"
  | condition => bytes "condition"

/-- Why a node has no shell text. -/
inductive Fault where
  /-- A path cannot be written. -/
  | path (fault : PathFault)
  /-- A fold name cannot be written. -/
  | foldName (fault : FoldName.Fault)
  /-- An empty place or a reference. -/
  | unknownNode (family : Family) (typeName : Bytes)
  deriving Repr, DecidableEq

/-- The wording of a fault. -/
def Fault.message : Fault → Bytes
  | path fault => fault.message
  | foldName fault => fault.message
  | unknownNode family typeName => family.name ++ bytes " " ++ typeName ++ bytes ": unknown node"

/-- The function that runs a command. -/
def commandFunction : Bytes := bytes "travis_cmd"

/-- The function that prints the markers of a fold. -/
def foldFunction : Bytes := bytes "travis_fold"

/-- Every line moved two places to the right. -/
def indent (text : Bytes) : Bytes :=
  Bytes.join [10] ((Bytes.lines text).map fun line => 32 :: 32 :: line)

/-- The word for a path that can be written. -/
def pathWord (operation path : Bytes) : Except Fault Bytes :=
  match checkPath operation path with
  | .ok () => .ok (Word.escape path)
  | .error fault => .error (.path fault)

/-- A test of a path. -/
def test (flag path : Bytes) : Except Fault Bytes := do
  let word ← pathWord (bytes "test " ++ flag) path
  return bytes "[[ " ++ flag ++ bytes " " ++ word ++ bytes " ]]"

/-- The options of an action, each after a blank. -/
def flags (options : List CommandOption) : Bytes :=
  (if CommandOption.echoes options then bytes " --echo" else [])
    ++ (match CommandOption.display? options with
        | some text => bytes " --display=" ++ Word.escape text
        | none => [])
    ++ (if CommandOption.asserts options then bytes " --assert" else [])

end Shell

open Shell

/-- The shell text of a command, not yet made one word. -/
def Command.render : Command → Except Fault Bytes
  | raw text => return text
  | echo text => return bytes "echo " ++ text
  | newline => return bytes "echo"
  | setEnv key value => return bytes "export " ++ key ++ bytes "=" ++ Word.escape value
  | changeDir path => do
    let word ← pathWord (bytes "cd") path
    return bytes "cd " ++ word
  | writeFile path data => do
    let word ← pathWord (bytes "write") path
    return bytes "base64 --decode > " ++ word ++ bytes " <<<" ++ Word.escape (Base64.encode data)
  | makeDir path => do
    let word ← pathWord (bytes "mkdir") path
    return bytes "mkdir -p " ++ word
  | copy source target => do
    let from' ← pathWord (bytes "cp") source
    let to' ← pathWord (bytes "cp") target
    return bytes "cp -r " ++ from' ++ bytes " " ++ to'
  | move source target => do
    let from' ← pathWord (bytes "mv") source
    let to' ← pathWord (bytes "mv") target
    return bytes "mv " ++ from' ++ bytes " " ++ to'
  | remove path => do
    let word ← pathWord (bytes "rm") path
    return bytes "rm -rf " ++ word
  | command@missing | command@(reference _) => throw (.unknownNode .command command.typeName)

/-- The shell text of a condition. -/
def Condition.render : Condition → Except Fault Bytes
  | present path => test (bytes "-e") path
  | isDirectory path => test (bytes "-d") path
  | isFile path => test (bytes "-f") path
  | succeeds command => command.render
  | and left right => do
    let l ← left.render
    let r ← right.render
    return bytes "\x7b " ++ l ++ bytes " && " ++ r ++ bytes "; \x7d"
  | or left right => do
    let l ← left.render
    let r ← right.render
    return bytes "\x7b " ++ l ++ bytes " || " ++ r ++ bytes "; \x7d"
  | not inner => do
    let text ← inner.render
    return bytes "\x7b ! " ++ text ++ bytes "; \x7d"
  | condition@missing | condition@(reference _) =>
    throw (.unknownNode .condition condition.typeName)

namespace Shell

/-- An action on one line. -/
def renderAction (command : Command) (options : List CommandOption) : Except Fault Bytes := do
  let text ← command.render
  return commandFunction ++ bytes " " ++ Word.escape text ++ flags options

/-- A fold between its markers. -/
def foldText (name body : Bytes) : Bytes :=
  foldFunction ++ bytes " start " ++ name ++ bytes "\n" ++ body ++ bytes "\n"
    ++ foldFunction ++ bytes " end " ++ name

/-- A branch without an alternative. -/
def whenText (condition onTrue : Bytes) : Bytes :=
  bytes "if " ++ condition ++ bytes "; then\n" ++ indent onTrue ++ bytes "\nfi"

/-- A branch with an alternative. -/
def eitherText (condition onTrue onFalse : Bytes) : Bytes :=
  bytes "if " ++ condition ++ bytes "; then\n" ++ indent onTrue ++ bytes "\nelse\n"
    ++ indent onFalse ++ bytes "\nfi"

/-- A branch whose alternative is a branch: it goes on as `elif`, and the inner branch, with the
`fi` that ends both, is moved one level to the right. -/
def chainText (condition onTrue onFalse : Bytes) : Bytes :=
  bytes "if " ++ condition ++ bytes "; then\n" ++ indent onTrue ++ bytes "\nel" ++ indent onFalse

end Shell

mutual
/-- The shell text of a statement. -/
def Statement.render : Statement → Except Fault Bytes
  | .missing | .noop => return []
  | .sequence statements => do
    let parts ← Statement.renderEach statements
    return Bytes.join [10] parts
  | .fold name body =>
    match FoldName.check name with
    | .error fault => throw (.foldName fault)
    | .ok () => do
      let text ← body.render
      return foldText name text
  | .action command options => renderAction command options
  | .branch condition onTrue onFalse => do
    let c ← condition.render
    let t ← onTrue.render
    if onFalse.isNoop then return whenText c t
    else
      let f ← onFalse.render
      return if onFalse.isBranch then chainText c t f else eitherText c t f
  | .reference statement => throw (.unknownNode .statement (bytes "*" ++ statement.typeName))
/-- The texts of the statements of a sequence that do something. -/
def Statement.renderEach : List Statement → Except Fault (List Bytes)
  | [] => return []
  | statement :: rest =>
    if statement.isNoop then Statement.renderEach rest
    else do
      let text ← statement.render
      let texts ← Statement.renderEach rest
      return text :: texts
end

end BuildScript
