import BuildScript.Job.Document
import BuildScript.Text.Base64
import BuildScript.Yaml.Node
import BuildScript.Yaml.Timestamp

/-!
# What scalars stand for

A scalar without a tag stands for a truth value, null, a number or a timestamp if it is plain and
looks like one, and for a text otherwise. A tag says what it has to be.

* `Resolve.plain`: what a plain scalar without a tag stands for.
* `Resolve.scalar?`: what any scalar stands for.
-/

namespace BuildScript.Yaml.Resolve

/-- The value of digits in a base up to sixteen, at least one. -/
def digits? (base : Nat) (s : Bytes) : Option Nat :=
  if s = [] then none
  else
    s.foldlM (fun n b =>
      (Bytes.hexValue? b).bind fun d => if d < base then some (base * n + d) else none) 0

/-- The base that the start of an unsigned numeral tells, and its digits. A zero in front of digits
means base eight; these may be missing. -/
def unsigned? (s : Bytes) : Option Nat :=
  match s with
  | 48 :: mark :: digit :: rest =>
    if mark = 98 || mark = 66 then digits? 2 (digit :: rest)
    else if mark = 111 || mark = 79 then digits? 8 (digit :: rest)
    else if mark = 120 || mark = 88 then digits? 16 (digit :: rest)
    else digits? 8 (mark :: digit :: rest)
  | [48] => some 0
  | 48 :: rest => digits? 8 rest
  | _ => digits? 10 s

/-- An integer that fits into 64 bits with a sign. -/
def inRange? (negative : Bool) (n : Nat) : Option Int64 :=
  if negative then if n ≤ Nat.pow 2 63 then some (Int64.ofInt (-n)) else none
  else if n < Nat.pow 2 63 then some (Int64.ofNat n) else none

/-- An integer with an optional sign, its size read by `read`. -/
def signed? (read : Bytes → Option Nat) (s : Bytes) : Option Int64 :=
  match s with
  | 43 :: rest => (read rest).bind (inRange? false)
  | 45 :: rest => (read rest).bind (inRange? true)
  | _ => (read s).bind (inRange? false)

/-- An unsigned integer that fits into 64 bits. -/
def natural? (read : Bytes → Option Nat) (s : Bytes) : Option UInt64 :=
  (read s).bind fun n => if n < Nat.pow 2 64 then some n.toUInt64 else none

/-- An integer: signed if it fits, unsigned otherwise. -/
def integer? (s : Bytes) : Option Document :=
  match signed? unsigned? s with
  | some n => some (.integer n)
  | none => (natural? unsigned? s).map .natural

/-- A decimal number with a digit in its whole part, or with a point and a digit after it. -/
def decimal? (s : Bytes) : Option Document :=
  let body :=
    match s with
    | 43 :: rest | 45 :: rest => rest
    | _ => s
  match body with
  | 46 :: digit :: _ => if Bytes.isDigit digit then (Binary64.ofNumeral? s).map .real else none
  | digit :: _ => if Bytes.isDigit digit then (Binary64.ofNumeral? s).map .real else none
  | [] => none

/-- An integer whose sign stands after the mark of its base. -/
def innerSigned? (s : Bytes) : Option Document :=
  match s with
  | 48 :: 98 :: rest => (signed? (digits? 2) rest).map .integer
  | 48 :: 111 :: rest => (signed? (digits? 8) rest).map .integer
  | _ => none

/-- A number; underscores in it do not count. -/
def number? (s : Bytes) : Option Document :=
  let s := s.filter (· != 95)
  (integer? s).or ((decimal? s).or (innerSigned? s))

/-- Whether each underscore stands between two digits. -/
def underscoresFit : (afterDigit : Bool) → Bytes → Bool
  | _, [] => true
  | afterDigit, b :: rest =>
    if b = 95 then afterDigit && Bytes.isDigit (rest.headD 0) && underscoresFit false rest
    else underscoresFit (Bytes.isDigit b) rest

/-- A number that starts with a point. -/
def pointNumber? (s : Bytes) : Option Document :=
  if underscoresFit false s then (Binary64.ofNumeral? (s.filter (· != 95))).map .real else none

/-- The words that stand for something else than a text. -/
def words : List (String × Document) :=
  [("true", .bool true), ("True", .bool true), ("TRUE", .bool true),
    ("false", .bool false), ("False", .bool false), ("FALSE", .bool false),
    ("", .null), ("~", .null), ("null", .null), ("Null", .null), ("NULL", .null),
    (".nan", .real .nan), (".NaN", .real .nan), (".NAN", .real .nan),
    (".inf", .real (.infinity false)), (".Inf", .real (.infinity false)),
    (".INF", .real (.infinity false)),
    ("+.inf", .real (.infinity false)), ("+.Inf", .real (.infinity false)),
    ("+.INF", .real (.infinity false)),
    ("-.inf", .real (.infinity true)), ("-.Inf", .real (.infinity true)),
    ("-.INF", .real (.infinity true))]

/-- What a word stands for. -/
def word? (s : Bytes) : Option Document :=
  (words.find? fun (word, _) => bytes word = s).map Prod.snd

/-- What a scalar stands for by its looks. -/
def byLooks (timestamps : Bool) (s : Bytes) : Document :=
  match word? s with
  | some value => value
  | none =>
    match s with
    | [] => .null
    | b :: _ =>
      if b = 46 then (pointNumber? s).getD (.text s)
      else if Bytes.isDigit b || b = 43 || b = 45 then
        if timestamps && Timestamp.isTimestamp s then .instant else (number? s).getD (.text s)
      else .text s

/-- What a plain scalar without a tag stands for. -/
def plain (s : Bytes) : Document := byLooks true s

/-- The tag of what a scalar stands for. -/
def tagOf : Document → Bytes
  | .null => bytes "!!null"
  | .bool _ => bytes "!!bool"
  | .integer _ | .natural _ => bytes "!!int"
  | .real _ => bytes "!!float"
  | .instant => bytes "!!timestamp"
  | _ => bytes "!!str"

/-- The tags that say what a scalar has to be. -/
def checkedTags : List Bytes :=
  [bytes "!!bool", bytes "!!int", bytes "!!float", bytes "!!null", bytes "!!timestamp"]

/-- What a scalar with a tag stands for. An integer may be called a float; any other tag than the
checked ones and that of base 64 makes it a text. -/
def tagged? (tag s : Bytes) : Option Document :=
  if tag = bytes "!!binary" then (Base64.decode? s).map .text
  else if !checkedTags.contains tag then some (.text s)
  else
    let value := byLooks (tag = bytes "!!timestamp") s
    if tagOf value = tag then some value
    else
      match value with
      | .integer n =>
        if tag = bytes "!!float" then
          some (.real (.ofRatio (decide (n < 0)) n.toInt.natAbs 1))
        else none
      | _ => none

/-- What a scalar stands for. -/
def scalar? (tag? : Option Bytes) (isPlain : Bool) (s : Bytes) : Option Document :=
  match tag? with
  | some tag => tagged? tag s
  | none => some (if isPlain && s != bytes "<<" then plain s else .text s)

/-- The tag of a scalar, given or found. -/
def scalarTag (tag? : Option Bytes) (isPlain : Bool) (s : Bytes) : Bytes :=
  match tag? with
  | some tag => tag
  | none =>
    if !isPlain then bytes "!!str"
    else if s = bytes "<<" then bytes "!!merge"
    else tagOf (plain s)

end BuildScript.Yaml.Resolve
