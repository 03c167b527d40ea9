import BuildScript.Yaml.Lexer

/-!
# The tree of a YAML document

Tokens are put together to scalars, sequences and mappings. An alias is a further mention of a node
that was given a name before; one that stands inside that node itself can never be worked off.

* `Node`: the tree.
* `Node.first`: the tree of the first document of a text.
-/

namespace BuildScript.Yaml

/-- A part of a document. -/
inductive Node where
  /-- A scalar; `tag?` is the tag it was given, and `plain` tells that it is not between quotes and no
  block. -/
  | scalar (tag? : Option Bytes) (plain : Bool) (text : Bytes)
  | sequence (items : List Node)
  | mapping (pairs : List (Node × Node))
  /-- Another mention of a node. -/
  | again (name : Bytes) (target : Node)
  /-- A mention of a node inside itself. -/
  | loop (name : Bytes)
  deriving Inhabited, Repr

namespace Node

/-- The scalar that stands where nothing is written. -/
def blank : Node := scalar none true []

/-- The tags that handles stand for unless a directive says otherwise. -/
def usualTags : List (Bytes × Bytes) :=
  [(bytes "!", bytes "!"), (bytes "!!", bytes "tag:yaml.org,2002:")]

/-- A tag in short form: `!!` stands for the usual start. -/
def shortTag (tag : Bytes) : Bytes :=
  let usual := bytes "tag:yaml.org,2002:"
  if Bytes.startsWith usual tag then bytes "!!" ++ tag.drop usual.length else tag

/-- A node that was given a name; none while it is not complete. -/
structure Anchor where
  name : Bytes
  node? : Option Node

/-- What is known while a document is read. -/
structure Reader where
  lexer : Lexer
  /-- The names given so far, in order. -/
  anchors : List Anchor := []
  /-- What handles stand for. -/
  tags : List (Bytes × Bytes) := []

/-- Reading a part of a document; nothing if the text is malformed. -/
abbrev Parser := StateT Reader Option

/-- The next token. -/
def peek : Parser Token := fun r =>
  r.lexer.peek?.map fun (token, lexer) => (token, { r with lexer })

/-- Goes on to what follows the next token. -/
def skip : Parser Unit := modify fun r => { r with lexer := r.lexer.skip }

/-- The next token, after the one before it is taken. -/
def skipAndPeek : Parser Token := do
  skip
  peek

/-- Gives a name to a node that is about to be read, and tells its number. -/
def declare (name? : Option Bytes) : Parser (Option Nat) := fun r =>
  match name? with
  | none => some (none, r)
  | some name =>
    some (some r.anchors.length, { r with anchors := r.anchors ++ [⟨name, none⟩] })

/-- Completes the node with a number. -/
def complete (number? : Option Nat) (node : Node) : Parser Node := fun r =>
  match number? with
  | none => some (node, r)
  | some number =>
    some (node,
      { r with
        anchors := r.anchors.modify number fun anchor => { anchor with node? := some node } })

/-- The node that a name was given to last. -/
def mention (name : Bytes) : Parser Node := fun r =>
  match r.anchors.reverse.find? fun anchor => anchor.name = name with
  | none => none
  | some anchor =>
    match anchor.node? with
    | some node => some (.again name node, r)
    | none => some (.loop name, r)

/-- The tag that a handle and a suffix stand for. -/
def fullTag (handle suffix : Bytes) : Parser Bytes := fun r =>
  if handle = [] then some (suffix, r)
  else
    match r.tags.lookup handle with
    | some start => some (start ++ suffix, r)
    | none => none

/-- The tag and the name in front of a node, in either order. -/
def properties : Parser (Option Bytes × Option Bytes) := do
  match ← peek with
  | .anchor name =>
    match ← skipAndPeek with
    | .tag handle suffix =>
      skip
      return (some (← fullTag handle suffix), some name)
    | _ => return (none, some name)
  | .tag handle suffix =>
    let tag ← fullTag handle suffix
    match ← skipAndPeek with
    | .anchor name =>
      skip
      return (some tag, some name)
    | _ => return (some tag, none)
  | _ => return (none, none)

/-- The tag of a scalar; a single `!` says no more than none. -/
def scalarTag? (tag? : Option Bytes) : Option Bytes :=
  tag?.bind fun tag => if tag = [] || tag = bytes "!" then none else some (shortTag tag)

/-- Whether a part of a pair between brackets is left out. -/
def endsFlowPart (close : Token) (token : Token) : Bool :=
  token = .value || token = .flowEntry || token = close

/-- Whether a value between brackets is left out. -/
def endsFlowValue (close : Token) (token : Token) : Bool := token = .flowEntry || token = close

/-- Whether a part of a pair given by indentation is left out. -/
def endsBlockPart (token : Token) : Bool := token = .key || token = .value || token = .blockEnd

mutual
/-- A node. `inBlock` tells whether a collection may be given by indentation, and `indentless` whether
a sequence may start without being indented. The first argument bounds the number of steps. -/
def node : (limit : Nat) → (inBlock indentless : Bool) → Parser Node
  | 0, _, _ => failure
  | limit + 1, inBlock, indentless => do
    match ← peek with
    | .mention name =>
      skip
      mention name
    | _ =>
      let (tag?, name?) ← properties
      let token ← peek
      if indentless && token = .blockEntry then
        let number? ← declare name?
        let items ← indentlessItems limit
        complete number? (.sequence items)
      else
        match token with
        | .scalar text plain =>
          skip
          let number? ← declare name?
          complete number? (.scalar (scalarTag? tag?) plain text)
        | .flowSequenceStart =>
          skip
          let number? ← declare name?
          let items ← flowItems limit true
          complete number? (.sequence items)
        | .flowMappingStart =>
          skip
          let number? ← declare name?
          let pairs ← flowPairs limit true
          complete number? (.mapping pairs)
        | .blockSequenceStart =>
          if !inBlock then failure
          else
            skip
            let number? ← declare name?
            let items ← blockItems limit
            complete number? (.sequence items)
        | .blockMappingStart =>
          if !inBlock then failure
          else
            skip
            let number? ← declare name?
            let pairs ← blockPairs limit
            complete number? (.mapping pairs)
        | _ =>
          if tag?.isNone && name?.isNone then failure
          else
            let number? ← declare name?
            complete number? (.scalar (scalarTag? tag?) true [])
/-- The items of a sequence given by indentation. -/
def blockItems : (limit : Nat) → Parser (List Node)
  | 0 => failure
  | limit + 1 => do
    match ← peek with
    | .blockEntry =>
      let token ← skipAndPeek
      let item ←
        if token = .blockEntry || token = .blockEnd then pure blank else node limit true false
      return item :: (← blockItems limit)
    | .blockEnd =>
      skip
      return []
    | _ => failure
/-- The items of a sequence that is not indented. It ends where no item follows. -/
def indentlessItems : (limit : Nat) → Parser (List Node)
  | 0 => failure
  | limit + 1 => do
    match ← peek with
    | .blockEntry =>
      let token ← skipAndPeek
      let item ←
        if token = .blockEntry || endsBlockPart token then pure blank else node limit true false
      return item :: (← indentlessItems limit)
    | _ => return []
/-- The pairs of a mapping given by indentation. -/
def blockPairs : (limit : Nat) → Parser (List (Node × Node))
  | 0 => failure
  | limit + 1 => do
    match ← peek with
    | .key =>
      let token ← skipAndPeek
      let key ← if endsBlockPart token then pure blank else node limit true true
      let value ←
        if (← peek) = .value then do
          let token ← skipAndPeek
          if endsBlockPart token then pure blank else node limit true true
        else pure blank
      return (key, value) :: (← blockPairs limit)
    | .blockEnd =>
      skip
      return []
    | _ => failure
/-- The items of a sequence between brackets. An item may be a single pair. -/
def flowItems : (limit : Nat) → (isFirst : Bool) → Parser (List Node)
  | 0, _ => failure
  | limit + 1, isFirst => do
    let token ← peek
    if token = .flowSequenceEnd then
      skip
      return []
    else
      let token ←
        if isFirst then pure token else if token = .flowEntry then skipAndPeek else failure
      if token = .key then
        skip
        let pair ← flowPair limit
        return .mapping [pair] :: (← flowItems limit false)
      else if token = .flowSequenceEnd then
        skip
        return []
      else
        let item ← node limit false false
        return item :: (← flowItems limit false)
/-- A single pair in a sequence. A token in the place of its key is taken away with it. -/
def flowPair : (limit : Nat) → Parser (Node × Node)
  | 0 => failure
  | limit + 1 => do
    let token ← peek
    let key ←
      if endsFlowPart .flowSequenceEnd token then do
        skip
        pure blank
      else node limit false false
    if (← peek) = .value then
      let token ← skipAndPeek
      if endsFlowValue .flowSequenceEnd token then return (key, blank)
      else return (key, ← node limit false false)
    else return (key, blank)
/-- The pairs of a mapping between brackets. -/
def flowPairs : (limit : Nat) → (isFirst : Bool) → Parser (List (Node × Node))
  | 0, _ => failure
  | limit + 1, isFirst => do
    let token ← peek
    if token = .flowMappingEnd then
      skip
      return []
    else
      let token ←
        if isFirst then pure token else if token = .flowEntry then skipAndPeek else failure
      if token = .key then
        let token ← skipAndPeek
        let key ←
          if endsFlowPart .flowMappingEnd token then pure blank else node limit false false
        let value ←
          if (← peek) = .value then do
            let token ← skipAndPeek
            if endsFlowValue .flowMappingEnd token then pure blank else node limit false false
          else pure blank
        return (key, value) :: (← flowPairs limit false)
      else if token = .flowMappingEnd then
        skip
        return []
      else
        let key ← node limit false false
        let _ ← peek
        return (key, blank) :: (← flowPairs limit false)
end

/-- Adds what a handle stands for. -/
def addTag (handle start : Bytes) : Parser Unit := fun r =>
  if (r.tags.lookup handle).isSome then none
  else some ((), { r with tags := r.tags ++ [(handle, start)] })

/-- Reads the directives in front of a document: one version at most, which has to be 1.1, and each
handle once. -/
def directives : (limit : Nat) → (versioned : Bool) → Parser Unit
  | 0, _ => failure
  | limit + 1, versioned => do
    match ← peek with
    | .version major minor =>
      if versioned || major != 1 || minor != 1 then failure
      else
        skip
        directives limit true
    | .tagDirective handle start =>
      addTag handle start
      skip
      directives limit versioned
    | _ => modify fun r => { r with tags := r.tags ++ usualTags }

/-- Whether a token stands outside of all documents. -/
def isOutside : Token → Bool
  | .version _ _ | .tagDirective _ _ | .documentStart | .documentEnd | .streamEnd => true
  | _ => false

/-- The first document of a text, unless the text holds none. The token after it is looked at, but not
used. -/
def document (limit : Nat) : Parser (Option Node) := do
  match ← peek with
  | .streamEnd => return none
  | .version _ _ | .tagDirective _ _ | .documentStart =>
    directives limit false
    if (← peek) != .documentStart then failure
    else
      let token ← skipAndPeek
      let root ← if isOutside token then pure blank else node limit true false
      let _ ← peek
      return some root
  | _ =>
    directives limit false
    let root ← node limit true false
    let _ ← peek
    return some root

/-- The first document of a text, and what is known after it. -/
def first (chars : List Nat) : Option (Option Node × Lexer) :=
  (document (16 * chars.length + 64) { lexer := Lexer.ofChars chars }).map fun (root?, r) =>
    (root?, r.lexer)

end Node

end BuildScript.Yaml
