import BuildScript.Files.Disk

/-!
# Reports of commands
-/

namespace BuildScript.Cli

/-- What a command leaves behind. -/
structure Report where
  exit : Nat
  output : Bytes
  errors : Bytes
  disk : Disk
  deriving Repr, BEq

namespace Report

/-- A command that did its work. -/
def done (disk : Disk) (output : Bytes) : Report := ⟨0, output, [], disk⟩

/-- A command that ended with a message, after some output. -/
def failed (disk : Disk) (output message : Bytes) : Report := ⟨1, output, message ++ [10], disk⟩

end Report

end BuildScript.Cli
