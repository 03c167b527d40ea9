import BuildScript.Tree.Command

/-!
# Conditions

What an `if` of a script tests. As with commands, a place for a condition may be empty or hold a
reference.
-/

namespace BuildScript

/-- A test. -/
inductive Condition where
  /-- No condition. -/
  | missing
  /-- A file or a directory is at the path. -/
  | present (path : Bytes)
  /-- A directory is at the path. -/
  | isDirectory (path : Bytes)
  /-- A regular file is at the path. -/
  | isFile (path : Bytes)
  /-- The command exits with status zero. -/
  | succeeds (command : Command)
  /-- Both hold. -/
  | and (left right : Condition)
  /-- One or both hold. -/
  | or (left right : Condition)
  /-- The inner one does not hold. -/
  | not (inner : Condition)
  /-- A condition kept elsewhere. -/
  | reference (condition : Condition)
  deriving Inhabited, Repr, DecidableEq

namespace Condition

/-- The name of the condition's type. -/
def typeName : Condition → Bytes
  | missing => bytes "<nil>"
  | present _ => bytes "ast.PathExists"
  | isDirectory _ => bytes "ast.IsDirectory"
  | isFile _ => bytes "ast.IsFile"
  | succeeds _ => bytes "ast.CommandSucceeds"
  | .and _ _ => bytes "ast.And"
  | .or _ _ => bytes "ast.Or"
  | .not _ => bytes "ast.Not"
  | reference condition => bytes "*" ++ typeName condition

end Condition

end BuildScript
