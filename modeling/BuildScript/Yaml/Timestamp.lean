import BuildScript.Text.Bytes

/-!
# Timestamps

A plain scalar that starts with a year of four digits and a dash may be a date, or a date with a time
of day. Month, day, hour, minute and second have one or two digits, and all have to be in range.

* `Timestamp.isTimestamp`: whether a text is a timestamp.
-/

namespace BuildScript.Yaml.Timestamp

/-- A number of one or two digits at the start of a text, and what follows it. -/
def number? : Bytes → Option (Nat × Bytes)
  | a :: b :: rest =>
    if !Bytes.isDigit a then none
    else if Bytes.isDigit b then some (10 * (a.toNat - 48) + (b.toNat - 48), rest)
    else some (a.toNat - 48, b :: rest)
  | [a] => if Bytes.isDigit a then some (a.toNat - 48, []) else none
  | [] => none

/-- A byte that has to be at the start of a text. -/
def expect? (b : UInt8) : Bytes → Option Bytes
  | [] => none
  | c :: rest => if c = b then some rest else none

/-- Whether a year has a 29th of February. -/
def isLeap (year : Nat) : Bool := year % 4 = 0 && (year % 100 != 0 || year % 400 = 0)

/-- The number of days of a month. -/
def daysIn (year month : Nat) : Nat :=
  if month = 2 then if isLeap year then 29 else 28
  else if month = 4 || month = 6 || month = 9 || month = 11 then 30
  else 31

/-- A date at the start of a text: whether its day is in range, and what follows it. -/
def date? (s : Bytes) : Option (Bool × Bytes) := do
  let year ← Bytes.toNat? (s.take 4)
  let s ← expect? 45 (s.drop 4)
  let (month, s) ← number? s
  if month = 0 || 12 < month then none
  else
    let s ← expect? 45 s
    let (day, s) ← number? s
    return (1 ≤ day && day ≤ daysIn year month, s)

/-- A fraction of a second, which may be missing. -/
def skipFraction (s : Bytes) : Bytes :=
  match s with
  | mark :: digit :: rest =>
    if (mark = 46 || mark = 44) && Bytes.isDigit digit then rest.dropWhile Bytes.isDigit else s
  | _ => s

/-- A time of day at the start of a text, and what follows it. -/
def time? (s : Bytes) : Option Bytes := do
  let (hour, s) ← number? s
  let s ← if hour < 24 then expect? 58 s else none
  let (minute, s) ← number? s
  let s ← if minute < 60 then expect? 58 s else none
  let (second, s) ← number? s
  if second < 60 then some (skipFraction s) else none

/-- Whether a text is a time zone: `Z`, or a distance in hours and minutes. -/
def isZone : Bytes → Bool
  | [90] => true
  | [sign, a, b, 58, c, d] =>
    (sign = 43 || sign = 45) && Bytes.isDigit a && Bytes.isDigit b && Bytes.isDigit c
      && Bytes.isDigit d
      && 10 * (a.toNat - 48) + (b.toNat - 48) ≤ 24 && 10 * (c.toNat - 48) + (d.toNat - 48) ≤ 60
  | _ => false

/-- Whether what follows a date is nothing, a time of day after blanks, or a time of day with a zone
after a `T`. -/
def isTail : Bytes → Bool
  | [] => true
  | mark :: rest =>
    if mark = 84 || mark = 116 then (time? rest).any isZone
    else mark = 32 && time? (rest.dropWhile (· == 32)) = some []

/-- Whether a text starts with exactly four digits and a dash. -/
def startsWithYear (s : Bytes) : Bool :=
  (s.takeWhile Bytes.isDigit).length = 4 && s[4]? = some 45

/-- Whether a text is a timestamp. -/
def isTimestamp (s : Bytes) : Bool :=
  startsWithYear s &&
    match date? s with
    | some (inRange, rest) => inRange && isTail rest
    | none => false

end BuildScript.Yaml.Timestamp
