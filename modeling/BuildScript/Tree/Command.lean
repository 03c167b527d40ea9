import BuildScript.Text.Quoted

/-!
# Commands and their options

A command is a single runnable step of a script. A place in a tree that should hold a command may
also be empty (`missing`) or hold a reference to a command kept elsewhere (`reference`): a digest
looks through a reference, but nothing that writes or runs a script accepts either.

* `Command`, `CommandOption`: the nodes.
* `CommandOption.echoes`, `CommandOption.asserts`, `CommandOption.display?`: what a list of options
  asks for.
* `Command.typeName`, `Command.dump`: how messages show a command.
-/

namespace BuildScript

/-- A single runnable step. -/
inductive Command where
  /-- No command. -/
  | missing
  /-- Shell text passed on as it is. -/
  | raw (text : Bytes)
  /-- Prints a text. -/
  | echo (text : Bytes)
  /-- Prints an empty line. -/
  | newline
  /-- Exports an environment variable. -/
  | setEnv (key value : Bytes)
  /-- Changes the working directory. -/
  | changeDir (path : Bytes)
  /-- Writes a file, replacing what it held. -/
  | writeFile (path data : Bytes)
  /-- Makes a directory and the directories above it. -/
  | makeDir (path : Bytes)
  /-- Copies a file, or a directory with all below it. -/
  | copy (source target : Bytes)
  /-- Moves a file or a directory. -/
  | move (source target : Bytes)
  /-- Removes a file, or a directory with all below it. -/
  | remove (path : Bytes)
  /-- A command kept elsewhere. -/
  | reference (command : Command)
  deriving Inhabited, Repr, DecidableEq

/-- Changes how the script's runtime treats a command. -/
inductive CommandOption where
  /-- No option. -/
  | missing
  /-- Print the command before running it. -/
  | echo
  /-- Fail the script if the command fails. -/
  | assert
  /-- The text to print in place of the command. -/
  | display (text : Bytes)
  /-- An option kept elsewhere. -/
  | reference (option : CommandOption)
  deriving Inhabited, Repr, DecidableEq

namespace CommandOption

/-- Whether the command is printed before it runs. -/
def echoes (options : List CommandOption) : Bool := options.contains .echo

/-- Whether a failure of the command fails the script. -/
def asserts (options : List CommandOption) : Bool := options.contains .assert

/-- The text to print in place of the command: the first one counts. -/
def display? : List CommandOption → Option Bytes
  | [] => none
  | .display text :: _ => some text
  | _ :: rest => display? rest

end CommandOption

namespace Command

/-- The name of the command's type. -/
def typeName : Command → Bytes
  | missing => bytes "<nil>"
  | raw _ => bytes "ast.Raw"
  | echo _ => bytes "ast.Echo"
  | newline => bytes "ast.Newline"
  | setEnv _ _ => bytes "ast.SetEnv"
  | changeDir _ => bytes "ast.ChangeDir"
  | writeFile _ _ => bytes "ast.WriteFile"
  | makeDir _ => bytes "ast.MakeDir"
  | copy _ _ => bytes "ast.CopyFile"
  | move _ _ => bytes "ast.MoveFile"
  | remove _ => bytes "ast.RemoveFile"
  | reference command => bytes "*" ++ typeName command

/-- A byte sequence as a list of hexadecimal numbers. -/
def dumpBytes (data : Bytes) : Bytes :=
  bytes "[]uint8\x7b"
    ++ Bytes.join (bytes ", ") (data.map fun b => bytes "0x" ++ Bytes.ofNatHex b.toNat)
    ++ bytes "\x7d"

/-- The fields of a command with their names. -/
def dumpFields : Command → List (Bytes × Bytes)
  | raw text | echo text => [(bytes "Text", Quoted.quote text)]
  | setEnv key value => [(bytes "Key", Quoted.quote key), (bytes "Value", Quoted.quote value)]
  | changeDir path | makeDir path | remove path => [(bytes "Path", Quoted.quote path)]
  | writeFile path data => [(bytes "Path", Quoted.quote path), (bytes "Data", dumpBytes data)]
  | copy source target | move source target =>
    [(bytes "From", Quoted.quote source), (bytes "To", Quoted.quote target)]
  | missing | newline | reference _ => []

/-- The command with all its fields, as a message shows it. -/
def dump : Command → Bytes
  | missing => bytes "<nil>"
  | reference command => bytes "&" ++ dump command
  | command =>
    command.typeName ++ bytes "\x7b"
      ++ Bytes.join (bytes ", ") (command.dumpFields.map fun (name, value) => name ++ bytes ":" ++ value)
      ++ bytes "\x7d"

end Command

end BuildScript
