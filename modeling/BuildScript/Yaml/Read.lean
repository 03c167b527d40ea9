import BuildScript.Yaml.Resolve
import BuildScript.Yaml.Source

/-!
# Reading YAML

The first document of a text is read; what follows it is not looked at. Aliases are written out,
unless that makes up nearly all of a large document, and the key `<<` brings the pairs of other
mappings in.

* `Yaml.read`: the first document of a text.
-/

namespace BuildScript.Yaml

/-- Why a text cannot be read. -/
inductive Fault where
  /-- It holds no document at all. -/
  | empty
  /-- It holds something else than a document, or a part of one. -/
  | malformed
  deriving Repr, DecidableEq

namespace Node

/-- How many nodes were worked off, and how many of them inside aliases. -/
structure Tally where
  nodes : Nat := 0
  aliased : Nat := 0

/-- Working a document off; nothing if that fails. -/
abbrev Evaluation := StateT Tally Option

/-- Below this number of nodes up to 99 of 100 may come from aliases. -/
def smallDocument : Nat := 400000

/-- From this number of nodes on only one of ten may come from aliases. -/
def largeDocument : Nat := 4000000

/-- Whether too much of a document comes from aliases. The share that is allowed shrinks evenly
between small and large documents. -/
def Tally.isExcessive (t : Tally) : Bool :=
  let range := largeDocument - smallDocument
  let beyond := min (t.nodes - smallDocument) range
  100 < t.aliased && 1000 < t.nodes
    && (99 * range - 89 * beyond) * t.nodes < 100 * range * t.aliased

/-- Counts a node. -/
def count (aliased : Bool) : Evaluation Unit := fun t =>
  let t : Tally := ⟨t.nodes + 1, if aliased then t.aliased + 1 else t.aliased⟩
  if t.isExcessive then none else some ((), t)

/-- Whether two keys count as the same: they are of one kind and written alike. -/
def sameKey : Node → Node → Bool
  | scalar _ _ a, scalar _ _ b => a = b
  | sequence _, sequence _ => true
  | mapping _, mapping _ => true
  | again a _, again b _ | again a _, loop b | loop a, again b _ | loop a, loop b => a = b
  | _, _ => false

/-- Whether no two keys count as the same. -/
def distinctKeys : List (Node × Node) → Bool
  | [] => true
  | (key, _) :: rest => rest.all (fun (other, _) => !sameKey key other) && distinctKeys rest

/-- Whether a key brings other mappings in. -/
def isMerge : Node → Bool
  | scalar tag? isPlain text =>
    text = bytes "<<" && (match tag? with
      | some tag => tag = bytes "!!merge"
      | none => isPlain)
  | _ => false

/-- Whether a key is a text, or brings other mappings in. -/
def isTextKey : Node → Bool
  | scalar tag? isPlain text =>
    let tag := Resolve.scalarTag tag? isPlain text
    tag = bytes "!!str" || tag = bytes "!!merge"
  | again _ target => target.isTextKey
  | _ => false

/-- Whether a node is a mapping, or another mention of one. -/
def isMapping : Node → Bool
  | mapping _ => true
  | again _ (mapping _) => true
  | loop _ => true
  | _ => false

/-- The pairs of a mapping so far. `merged?` holds the keys that may not be set again, while other
mappings are brought in. -/
structure Filling where
  pairs : List (Document × Document) := []
  merged? : Option (List Document) := none

/-- Sets a pair. -/
def Filling.set (f : Filling) (key value : Document) : Filling :=
  { f with pairs := f.pairs ++ [(key, value)] }

/-- Marks a key as set, unless it is set already. -/
def Filling.reserve? (f : Filling) (key : Document) : Option Filling :=
  match f.merged? with
  | none => some f
  | some keys => if keys.contains key then none else some { f with merged? := some (key :: keys) }

/-- The mapping that the pairs make up. -/
def Filling.document (f : Filling) (textKeys : Bool) : Document :=
  let table := Document.table f.pairs
  if textKeys then (table.fields?.map Document.object).getD table else table

/-- Whether a value may be a key. -/
def isKeyValue : Document → Bool
  | .list _ | .object _ | .table _ => false
  | _ => true

/-- A key that is taken as a text: a null gives none. -/
def textKey : (aliased : Bool) → Node → Evaluation (Option Document)
  | aliased, scalar tag? isPlain text => do
    count aliased
    let value ← (Resolve.scalar? tag? isPlain text : Option Document)
    match value with
    | .null => return none
    | .text s => return some (.text s)
    | _ => return some (.text text)
  | aliased, again _ target => do
    count aliased
    textKey true target
  | _, _ => failure

mutual
/-- What a node stands for. `aliased` tells whether it is inside an alias. -/
def value : (aliased : Bool) → Node → Evaluation Document
  | aliased, scalar tag? isPlain text => do
    count aliased
    (Resolve.scalar? tag? isPlain text : Option Document)
  | aliased, sequence items => do
    count aliased
    return .list (← values aliased items)
  | aliased, mapping pairs => do
    count aliased
    if !distinctKeys pairs then failure
    else
      let textKeys := pairs.all fun (key, _) => key.isTextKey
      let filled ← fill aliased textKeys pairs {}
      let filled ← mergeFrom aliased textKeys (ownKeys aliased pairs) pairs filled
      return filled.document textKeys
  | aliased, again _ target => do
    count aliased
    value true target
  | _, loop _ => failure
/-- What nodes in a row stand for. -/
def values : (aliased : Bool) → List Node → Evaluation (List Document)
  | _, [] => return []
  | aliased, item :: rest => do
    let first ← value aliased item
    return first :: (← values aliased rest)
/-- Sets the pairs of a mapping, apart from those brought in. -/
def fill : (aliased textKeys : Bool) → List (Node × Node) → Filling → Evaluation Filling
  | _, _, [], filled => return filled
  | aliased, textKeys, (key, item) :: rest, filled => do
    if key.isMerge then fill aliased textKeys rest filled
    else
      let key? ← if textKeys then textKey aliased key else some <$> value aliased key
      match key? with
      | none => fill aliased textKeys rest filled
      | some k =>
        match filled.reserve? k with
        | none => fill aliased textKeys rest filled
        | some reserved =>
          if !isKeyValue k then failure
          else
            let v ← value aliased item
            fill aliased textKeys rest (reserved.set k v)
/-- Brings other mappings into a mapping, whose own keys `own` come first. -/
def mergeFrom : (aliased textKeys : Bool) → (own : Evaluation (List Document)) →
    List (Node × Node) → Filling → Evaluation Filling
  | _, _, _, [], filled => return filled
  | aliased, textKeys, own, (key, item) :: rest, filled => do
    if !key.isMerge then mergeFrom aliased textKeys own rest filled
    else
      let keys ← match filled.merged? with
        | some keys => pure keys
        | none => own
      let merged ← mergeNode aliased textKeys item { filled with merged? := some keys }
      return { merged with merged? := filled.merged?.bind fun _ => merged.merged? }
/-- Brings a mapping, or a row of mappings, in. -/
def mergeNode : (aliased textKeys : Bool) → Node → Filling → Evaluation Filling
  | aliased, textKeys, mapping pairs, filled => do
    count aliased
    if !distinctKeys pairs then failure
    else
      let filled ← fill aliased textKeys pairs filled
      mergeFrom aliased textKeys (ownKeys aliased pairs) pairs filled
  | aliased, textKeys, again _ target, filled => do
    if !target.isMapping then failure
    else
      count aliased
      mergeNode true textKeys target filled
  | aliased, textKeys, sequence items, filled => mergeEach aliased textKeys items filled
  | _, _, _, _ => failure
/-- Brings the mappings of a row in, one after the other. -/
def mergeEach : (aliased textKeys : Bool) → List Node → Filling → Evaluation Filling
  | _, _, [], filled => return filled
  | aliased, textKeys, item :: rest, filled => do
    if !item.isMapping then failure
    else
      let filled ← mergeNode aliased textKeys item filled
      mergeEach aliased textKeys rest filled
/-- The keys of a mapping. -/
def ownKeys : (aliased : Bool) → List (Node × Node) → Evaluation (List Document)
  | _, [] => return []
  | aliased, (key, _) :: rest => do
    let k ← value aliased key
    return k :: (← ownKeys aliased rest)
end

end Node

/-- The first document of a text. A part of the text that cannot be used does no harm if it is not
reached. -/
def read (s : Bytes) : Except Fault Document :=
  let source := Source.ofBytes s
  match Node.first source.chars with
  | none => .error .malformed
  | some (root?, lexer) =>
    if !source.complete && source.chars.length < lexer.cursor.index + 4 then .error .malformed
    else
      match root? with
      | none => .error .empty
      | some root =>
        match (do Node.count false; Node.value false root : Node.Evaluation Document) {} with
        | some (document, _) => .ok document
        | none => .error .malformed

end BuildScript.Yaml
