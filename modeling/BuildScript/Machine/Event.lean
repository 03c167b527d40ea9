import BuildScript.Text.Bytes

/-!
# Events and their trace

A run reports what it does as a row of events. A trace shows each of them on a line.
-/

namespace BuildScript

/-- Something a run did. -/
inductive Event where
  /-- A command was logged; an empty `display` means none was asked for. -/
  | command (text : Bytes) (echo assert : Bool) (display : Bytes)
  /-- A fold was entered or left. -/
  | fold (name : Bytes) (start : Bool)
  /-- A variable was exported. -/
  | env (key value : Bytes)
  /-- A file or the working directory was changed; `target` is empty where there is only one path. -/
  | file (operation path target : Bytes)
  deriving Repr, DecidableEq

/-- The line that shows an event. -/
def Event.line : Event → Bytes
  | command text echo _ display =>
    if display != [] then display
    else if echo then bytes "$ " ++ text
    else bytes "  " ++ text
  | fold name start => bytes (if start then "▸ " else "◂ ") ++ name
  | env key value => bytes "  " ++ key ++ bytes "=" ++ value
  | file operation path target =>
    bytes "  [" ++ operation ++ bytes "] " ++ path
      ++ (if target != [] then bytes " => " ++ target else [])

/-- The lines of a row of events. -/
def Event.trace (events : List Event) : Bytes := events.flatMap fun event => event.line ++ [10]

end BuildScript
