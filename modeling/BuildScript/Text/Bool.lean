import BuildScript.Text.Bytes

/-!
# Truth values in texts
-/

namespace BuildScript.Bytes

/-- The truth value that a text stands for. -/
def toBool? (s : Bytes) : Option Bool :=
  if [bytes "1", bytes "t", bytes "T", bytes "true", bytes "TRUE", bytes "True"].contains s then
    some true
  else if [bytes "0", bytes "f", bytes "F", bytes "false", bytes "FALSE", bytes "False"].contains s then
    some false
  else none

/-- The word for a truth value. -/
def ofBool (b : Bool) : Bytes := if b then bytes "true" else bytes "false"

end BuildScript.Bytes
