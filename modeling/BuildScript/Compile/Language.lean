import BuildScript.Tree.Statement

/-!
# Languages

A language adds stages of its own to a script. A stage with nothing to do is a noop.

* `Language.named?`: the language with a name.
* `Language.forJob`: the language that a job asks for; generic if it names none.
-/

namespace BuildScript

/-- The stages of a language. -/
structure Language where
  name : Bytes
  setup : Statement := .noop
  announce : Statement := .noop
  install : Statement := .noop
  script : Statement := .noop

/-- The name of a language that is not known. -/
structure UnknownLanguage where
  name : Bytes
  deriving Repr, DecidableEq

/-- The wording of the fault. -/
def UnknownLanguage.message (fault : UnknownLanguage) : Bytes :=
  fault.name ++ bytes ": unknown language"

namespace Language

/-- Adds nothing. -/
def generic : Language where
  name := bytes "generic"

/-- Builds and tests a cargo project. -/
def rust : Language where
  name := bytes "rust"
  announce :=
    .block
      [.run (.raw (bytes "rustc --version")) [.echo],
        .run (.raw (bytes "cargo --version")) [.echo]]
  install := .run (.raw (bytes "cargo build --verbose")) [.echo, .assert]
  script := .run (.raw (bytes "cargo test --verbose")) [.echo]

/-- All languages. -/
def all : List Language := [generic, rust]

/-- The language with a name. -/
def named? (name : Bytes) : Option Language := all.find? fun language => language.name = name

/-- Whether there is a language with a name. -/
def known (name : Bytes) : Bool := (named? name).isSome

/-- The language that a job asks for by name. -/
def forJob (name : Bytes) : Except UnknownLanguage Language :=
  if name = [] then .ok generic
  else
    match named? name with
    | some language => .ok language
    | none => .error ⟨name⟩

end Language

end BuildScript
