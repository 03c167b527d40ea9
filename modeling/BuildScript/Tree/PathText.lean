import BuildScript.Text.Quoted

/-!
# Paths that can be written into a script

A script is text, so a path in it has to be valid UTF-8 without a zero byte.
-/

namespace BuildScript

/-- A path that cannot be written, with the operation that was to use it. -/
structure PathFault where
  operation : Bytes
  path : Bytes
  deriving Repr, DecidableEq

/-- The wording of a fault. -/
def PathFault.message (fault : PathFault) : Bytes :=
  fault.operation ++ bytes " " ++ Quoted.quote fault.path
    ++ bytes ": path cannot be represented as text"

/-- Whether a path can be written into a script. -/
def isPathText (path : Bytes) : Bool := Utf8.valid path && !path.contains 0

/-- Accepts the paths that can be written into a script. -/
def checkPath (operation path : Bytes) : Except PathFault Unit :=
  if isPathText path then .ok () else .error ⟨operation, path⟩

/-- Accepts two paths, the first one first. -/
def checkPaths (operation source target : Bytes) : Except PathFault Unit := do
  checkPath operation source
  checkPath operation target

end BuildScript
