import BuildScript.Text.Bytes

/-!
# Templates

A template is a text in which `%s`, `%d` and `%v` stand for the arguments in turn and `%%` for a
percent sign. A mistake never fails: it leaves a visible mark in the text, such as `%!s(MISSING)`
for an argument that is not there.

* `Template.fill`: a template with its arguments.
-/

namespace BuildScript.Template

/-- What can be put into a template. -/
inductive Argument where
  | text (value : Bytes)
  | number (value : Int)
  deriving Repr, DecidableEq

namespace Argument

/-- The argument written plainly. -/
def plain : Argument → Bytes
  | text value => value
  | number value => Bytes.ofInt value

/-- The argument with the name of its kind, as marks show it. -/
def marked : Argument → Bytes
  | text value => bytes "string=" ++ value
  | number value => bytes "int64=" ++ Bytes.ofInt value

/-- Whether a place written with the letter `verb` takes the argument. -/
def fits (verb : UInt8) : Argument → Bool
  | text _ => verb = 115 || verb = 118
  | number _ => verb = 100 || verb = 118

end Argument

/-- The mark for arguments that no place took. -/
def surplus (args : List Argument) : Bytes :=
  if args.isEmpty then []
  else bytes "%!(EXTRA " ++ Bytes.join (bytes ", ") (args.map Argument.marked) ++ bytes ")"

/-- A template with its arguments put in. -/
def fill : (template : Bytes) → List Argument → Bytes
  | [], args => surplus args
  | [37], args => bytes "%!(NOVERB)" ++ surplus args
  | 37 :: verb :: rest, args =>
    if verb = 37 then 37 :: fill rest args
    else
      match args with
      | [] => bytes "%!" ++ verb :: (bytes "(MISSING)" ++ fill rest [])
      | arg :: args =>
        (if arg.fits verb then arg.plain
          else bytes "%!" ++ verb :: (bytes "(" ++ arg.marked ++ bytes ")")) ++ fill rest args
  | b :: rest, args => b :: fill rest args

end BuildScript.Template
