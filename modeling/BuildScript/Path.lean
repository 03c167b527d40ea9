import BuildScript.Text.Bytes

/-!
# Slash-separated paths

Paths are byte texts with `/` between their segments. All operations are lexical.

* `Path.clean`: the shortest equivalent path: no empty segment, no `.`, and `..` only at the front
  of a relative path.
* `Path.join`: parts put one below the other, then cleaned.
* `Path.segments`: the segments of an absolute clean path.
* `Path.splitLast`, `Path.base`, `Path.extension`: the end of a path.
-/

namespace BuildScript.Path

/-- The byte between segments. -/
def slash : UInt8 := 47

/-- The root directory. -/
def root : Bytes := [slash]

/-- The segment for the directory itself. -/
def here : Bytes := [46]

/-- The segment for the directory above. -/
def up : Bytes := [46, 46]

/-- Whether a path starts at the root. -/
def isAbsolute (p : Bytes) : Bool := p.head? == some slash

/-- One segment put on a stack of segments, the deepest on top. At the root there is nothing above. -/
def push (rooted : Bool) (stack : List Bytes) (segment : Bytes) : List Bytes :=
  if segment = [] || segment = here then stack
  else if segment = up then
    match stack with
    | [] => if rooted then [] else [up]
    | top :: rest => if top = up then up :: stack else rest
  else segment :: stack

/-- The segments that remain when `.` and `..` are worked off. -/
def reduce (rooted : Bool) (segments : List Bytes) : List Bytes :=
  (segments.foldl (push rooted) []).reverse

/-- The shortest path equivalent to `p`; the empty path is the directory itself. -/
def clean (p : Bytes) : Bytes :=
  let rooted := isAbsolute p
  let kept := Bytes.join root (reduce rooted (Bytes.splitOn slash p))
  if rooted then slash :: kept
  else if kept = [] then here
  else kept

/-- The parts that are not empty put one below the other, then cleaned; empty if all are. -/
def join (parts : List Bytes) : Bytes :=
  let kept := parts.filter fun p => p != []
  if kept.isEmpty then [] else clean (Bytes.join root kept)

/-- The segments of an absolute clean path, from the root down. -/
def segments (p : Bytes) : List Bytes :=
  let inner := Bytes.trim slash p
  if inner = [] then [] else Bytes.splitOn slash inner

/-- A path cut after its last slash: the directory with that slash, and the last segment. -/
def splitLast (p : Bytes) : Bytes × Bytes :=
  let name := (p.reverse.takeWhile (· != slash)).reverse
  (p.take (p.length - name.length), name)

/-- The last segment of a path, trailing slashes apart; `.` for the empty path, `/` for the root. -/
def base (p : Bytes) : Bytes :=
  if p = [] then here
  else
    let name := (splitLast (p.reverse.dropWhile (· == slash)).reverse).2
    if name = [] then root else name

/-- The text from the last dot of the last segment on; empty if that segment has no dot. -/
def extension (p : Bytes) : Bytes :=
  let name := (splitLast p).2
  if name.contains 46 then 46 :: (name.reverse.takeWhile (· != 46)).reverse else []

end BuildScript.Path
