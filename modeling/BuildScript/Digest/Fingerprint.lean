import BuildScript.Digest.Datum
import BuildScript.Tree.Statement

/-!
# Fingerprints of script trees

A node is a record with its kind as name. An empty place counts as the statement that does nothing,
and a reference as what it refers to.
-/

namespace BuildScript

namespace Datum

/-- What an empty place counts as. -/
def nothing : Datum := record (bytes "NoopStatement") []

/-- A record whose fields are texts. -/
def textRecord (name : String) (fields : List (String × Bytes)) : Datum :=
  record (bytes name) (fields.map fun (field, value) => (bytes field, text value))

end Datum

/-- The datum of an option. -/
def CommandOption.datum : CommandOption → Datum
  | missing => .nothing
  | echo => .textRecord "EchoOption" []
  | assert => .textRecord "AssertOption" []
  | display text => .textRecord "DisplayOption" [("Text", text)]
  | reference option => option.datum

/-- The datum of a command. -/
def Command.datum : Command → Datum
  | missing => .nothing
  | raw text => .textRecord "Raw" [("Text", text)]
  | echo text => .textRecord "Echo" [("Text", text)]
  | newline => .textRecord "Newline" []
  | setEnv key value => .textRecord "SetEnv" [("Key", key), ("Value", value)]
  | changeDir path => .textRecord "ChangeDir" [("Path", path)]
  | writeFile path data => .textRecord "WriteFile" [("Path", path), ("Data", data)]
  | makeDir path => .textRecord "MakeDir" [("Path", path)]
  | copy source target => .textRecord "CopyFile" [("From", source), ("To", target)]
  | move source target => .textRecord "MoveFile" [("From", source), ("To", target)]
  | remove path => .textRecord "RemoveFile" [("Path", path)]
  | reference command => command.datum

/-- The datum of a condition. -/
def Condition.datum : Condition → Datum
  | missing => .nothing
  | present path => .textRecord "PathExists" [("Path", path)]
  | isDirectory path => .textRecord "IsDirectory" [("Path", path)]
  | isFile path => .textRecord "IsFile" [("Path", path)]
  | succeeds command => .record (bytes "CommandSucceeds") [(bytes "Command", command.datum)]
  | and left right => .record (bytes "And") [(bytes "A", left.datum), (bytes "B", right.datum)]
  | or left right => .record (bytes "Or") [(bytes "A", left.datum), (bytes "B", right.datum)]
  | not inner => .record (bytes "Not") [(bytes "Cond", inner.datum)]
  | reference condition => condition.datum

mutual
/-- The datum of a statement. -/
def Statement.datum : Statement → Datum
  | .missing | .noop => .nothing
  | .sequence statements =>
    .record (bytes "Sequence") [(bytes "Statements", .list (Statement.data statements))]
  | .fold name body =>
    .record (bytes "Fold") [(bytes "Name", .text name), (bytes "Body", body.datum)]
  | .action command options =>
    .record (bytes "Action")
      [(bytes "Command", command.datum), (bytes "Options", .list (options.map CommandOption.datum))]
  | .branch condition onTrue onFalse =>
    .record (bytes "If")
      [(bytes "Cond", condition.datum), (bytes "Then", onTrue.datum), (bytes "Else", onFalse.datum)]
  | .reference statement => statement.datum
/-- The data of statements in a row. -/
def Statement.data : List Statement → List Datum
  | [] => []
  | statement :: rest => statement.datum :: Statement.data rest
end

/-- The fingerprint of a statement. -/
def Statement.fingerprint (statement : Statement) : Bytes := statement.datum.digest

end BuildScript
