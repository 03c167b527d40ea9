import BuildScript.Text.Bool
import BuildScript.Text.Csv
import BuildScript.Text.Quoted

/-!
# Flags

The words of a command line are flags, their values, and arguments, in any order. A flag has a name
after two dashes and may have a letter after one dash; letters can be put together. A value follows
an equals sign or is the next word, except for switches, which need none. After `--` all words are
arguments.

* `Flag.parse`: the flags and the arguments of a command line.
* `Line.text?`, `Line.switch`, `Line.list`: the value of a flag.
-/

namespace BuildScript

/-- What the value of a flag is. -/
inductive FlagKind where
  | text
  | switch
  /-- Several texts, given at once or one after the other. -/
  | list
  deriving Repr, DecidableEq

/-- A flag that a command knows. -/
structure Flag where
  name : Bytes
  letter? : Option UInt8
  kind : FlagKind
  deriving Repr, DecidableEq

/-- The value that a flag was given. -/
inductive FlagValue where
  | text (value : Bytes)
  | switch (value : Bool)
  | list (values : List Bytes)
  deriving Repr, DecidableEq

/-- Why a command line cannot be read. -/
inductive FlagFault where
  /-- Help was asked for where no flag is meant for it. -/
  | help
  | badForm (word : Bytes)
  | unknownName (name : Bytes)
  | unknownLetter (letter : UInt8) (letters : Bytes)
  | nameNeedsValue (word : Bytes)
  | letterNeedsValue (letter : UInt8) (letters : Bytes)
  | badValue (value label reason : Bytes)
  deriving Repr, DecidableEq

/-- The wording of a fault. -/
def FlagFault.message : FlagFault → Bytes
  | help => bytes "pflag: help requested"
  | badForm word => bytes "bad flag syntax: " ++ word
  | unknownName name => bytes "unknown flag: --" ++ name
  | unknownLetter letter letters =>
    bytes "unknown shorthand flag: " ++ Quoted.quoteChar letter.toNat ++ bytes " in -" ++ letters
  | nameNeedsValue word => bytes "flag needs an argument: " ++ word
  | letterNeedsValue letter letters =>
    bytes "flag needs an argument: " ++ Quoted.quoteChar letter.toNat ++ bytes " in -" ++ letters
  | badValue value label reason =>
    bytes "invalid argument " ++ Quoted.quote value ++ bytes " for " ++ Quoted.quote label
      ++ bytes " flag: " ++ reason

/-- The flags that were given, in their order, and the arguments. -/
structure Line where
  given : List (Bytes × FlagValue)
  arguments : List Bytes
  deriving Repr, DecidableEq

namespace Flag

/-- How messages name a flag. -/
def label (flag : Flag) : Bytes :=
  match flag.letter? with
  | some letter => [45, letter] ++ bytes ", --" ++ flag.name
  | none => bytes "--" ++ flag.name

/-- The value of a flag from its text. -/
def value (flag : Flag) (s : Bytes) : Except FlagFault (Bytes × FlagValue) :=
  match flag.kind with
  | .text => .ok (flag.name, .text s)
  | .switch =>
    match Bytes.toBool? s with
    | some b => .ok (flag.name, .switch b)
    | none =>
      .error (.badValue s flag.label
        (bytes "strconv.ParseBool: parsing " ++ Quoted.quote s ++ bytes ": invalid syntax"))
  | .list =>
    if s = [] then .ok (flag.name, .list [])
    else
      match Csv.record s with
      | .ok values => .ok (flag.name, .list values)
      | .error fault => .error (.badValue s flag.label fault.message)

/-- The flag with a name. -/
def named? (flags : List Flag) (name : Bytes) : Option Flag :=
  flags.find? fun flag => flag.name = name

/-- The flag with a letter. -/
def lettered? (flags : List Flag) (letter : UInt8) : Option Flag :=
  flags.find? fun flag => flag.letter? = some letter

/-- What one word gives: values of flags, and perhaps a flag whose value is the next word. -/
structure Reading where
  given : List (Bytes × FlagValue)
  /-- The flag that takes the next word, and the fault if there is none. -/
  open? : Option (Flag × FlagFault)

/-- The reading of a word that gives one value. -/
def single (flag : Flag) (s : Bytes) : Except FlagFault Reading :=
  (flag.value s).map fun given => ⟨[given], none⟩

/-- A word that starts with two dashes. -/
def readName (flags : List Flag) (word : Bytes) : Except FlagFault Reading :=
  match word.drop 2 with
  | [] => .error (.badForm word)
  | first :: rest =>
    if first = 45 || first = 61 then .error (.badForm word)
    else
      let (name, value?) := Bytes.cut 61 (first :: rest)
      match named? flags name with
      | none => .error (if name = bytes "help" then .help else .unknownName name)
      | some flag =>
        match value? with
        | some s => flag.single s
        | none =>
          if flag.kind = .switch then flag.single (bytes "true")
          else .ok ⟨[], some (flag, .nameNeedsValue word)⟩

/-- Letters that follow one dash. -/
def readLetters (flags : List Flag) : Bytes → Except FlagFault Reading
  | [] => .ok ⟨[], none⟩
  | letter :: rest =>
    match lettered? flags letter with
    | none => .error (if letter = 104 then .help else .unknownLetter letter (letter :: rest))
    | some flag =>
      if rest.head? = some 61 && 1 < rest.length then flag.single (rest.drop 1)
      else if flag.kind = .switch then
        match flag.single (bytes "true"), readLetters flags rest with
        | .ok first, .ok more => .ok ⟨first.given ++ more.given, more.open?⟩
        | .error fault, _ => .error fault
        | _, .error fault => .error fault
      else if rest != [] then flag.single rest
      else .ok ⟨[], some (flag, .letterNeedsValue letter [letter])⟩

/-- Whether a word is an argument and not a flag. -/
def isArgument (word : Bytes) : Bool := word.head? != some 45 || word.length = 1

/-- The flags and the arguments of a command line. -/
def parse (flags : List Flag) : List Bytes → Except FlagFault Line
  | [] => .ok ⟨[], []⟩
  | word :: rest =>
    if isArgument word then
      (parse flags rest).map fun line => { line with arguments := word :: line.arguments }
    else if word = bytes "--" then .ok ⟨[], rest⟩
    else
      let reading :=
        if Bytes.startsWith (bytes "--") word then readName flags word
        else readLetters flags (word.drop 1)
      match reading with
      | .error fault => .error fault
      | .ok ⟨given, none⟩ =>
        (parse flags rest).map fun line => { line with given := given ++ line.given }
      | .ok ⟨given, some (flag, fault)⟩ =>
        match rest with
        | [] => .error fault
        | next :: rest =>
          match flag.value next with
          | .error fault => .error fault
          | .ok last =>
            (parse flags rest).map fun line => { line with given := given ++ last :: line.given }

end Flag

namespace Line

/-- The values of a flag in the order in which they were given. -/
def values (line : Line) (name : Bytes) : List FlagValue :=
  line.given.filterMap fun (other, value) => if other = name then some value else none

/-- The text that a flag was given last. -/
def text? (line : Line) (name : Bytes) : Option Bytes :=
  match (line.values name).getLast? with
  | some (.text s) => some s
  | _ => none

/-- Whether a switch was turned on last. -/
def switch (line : Line) (name : Bytes) : Bool :=
  match (line.values name).getLast? with
  | some (.switch b) => b
  | _ => false

/-- All that a list was given. -/
def list (line : Line) (name : Bytes) : List Bytes :=
  (line.values name).flatMap fun value =>
    match value with
    | .list values => values
    | _ => []

end Line

end BuildScript
