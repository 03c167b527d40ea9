import BuildScript.Text.Quoted

/-!
# Fold names

A fold groups the output of a part of a script under a name, which is written on a marker line of
its own. So a name must not be empty and must not hold a line end.
-/

namespace BuildScript.FoldName

/-- Why a name cannot stand on a marker line. -/
inductive Fault where
  | empty
  | lineEnd (name : Bytes)
  deriving Repr, DecidableEq

/-- The wording of a fault. -/
def Fault.message : Fault → Bytes
  | empty => bytes "fold name is empty: invalid fold name"
  | lineEnd name =>
    bytes "fold name contains a newline: " ++ Quoted.quote name ++ bytes ": invalid fold name"

/-- Whether a byte ends a line. -/
def isLineEnd (b : UInt8) : Bool := b = 10 || b = 13

/-- Accepts the names that can stand on a marker line. -/
def check (name : Bytes) : Except Fault Unit :=
  if name = [] then .error .empty
  else if name.any isLineEnd then .error (.lineEnd name)
  else .ok ()

end BuildScript.FoldName
