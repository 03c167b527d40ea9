import BuildScript.Proofs.Machine.Execution
import BuildScript.Proofs.Machine.Replay
import BuildScript.Shell.Render
import Mathlib.Data.List.Forall2

/-!
# What a run leaves in the log and in the variables

The interpreter has its own table of what it logs, and the writer of scripts has another one. The two
agree: a run that goes through has logged, in order, the commands of its path as they are written into
a script.

* `Command.isLogged`, `Command.export?`: the commands that are logged, and those that set a variable.
* `Machine.Trail`: the log and the variables after a row of actions, told by these actions.
* `trail_perform`, `trail_append`, `trail_performAll`: one action, actions in a row, **all actions of a
  path.**
* `run_follows_one_path`: a run is the execution of one path, and leaves its trail.
-/

namespace BuildScript

/-- Whether a run puts a command into the log. -/
def Command.isLogged : Command → Bool
  | .raw _ | .echo _ | .newline => true
  | _ => false

/-- The variable that a command exports, with its value. -/
def Command.export? : Command → Option (Bytes × Bytes)
  | .setEnv key value => some (key, value)
  | _ => none

/-- An entry of the log has the text that is written for the command, and the options of the action. -/
def Executed.Records (action : Action) (entry : Executed) : Prop :=
  action.1.render = .ok entry.command ∧ entry.options = action.2

namespace Machine

/-- The log and the variables after a row of actions: one entry for each action that is logged, and for
each variable the last value that was exported, or the old one. -/
structure Trail (m : Machine) (actions : List Action) (m' : Machine) : Prop where
  log : ∃ entries, m'.log = m.log ++ entries ∧
    List.Forall₂ Executed.Records (actions.filter fun action => action.1.isLogged) entries
  env : ∀ key, m'.env.lookup key =
    ((actions.filterMap fun action => action.1.export?).reverse.lookup key).or (m.env.lookup key)

variable {m m₁ m₂ m' : Machine} {first next actions : List Action} {command : Command}
  {options : List CommandOption}

theorem trail_nil (m : Machine) : Trail m [] m :=
  ⟨⟨[], (List.append_nil _).symm, .nil⟩, fun _ => rfl⟩

theorem trail_append (hfirst : Trail m first m₁) (hnext : Trail m₁ next m₂) :
    Trail m (first ++ next) m₂ := by
  obtain ⟨early, hlog₁, hearly⟩ := hfirst.log
  obtain ⟨late, hlog₂, hlate⟩ := hnext.log
  constructor
  · refine ⟨early ++ late, by rw [hlog₂, hlog₁, List.append_assoc], ?_⟩
    rw [List.filter_append]
    exact List.rel_append hearly hlate
  · -- what was exported later is found first
    intro key
    rw [hnext.env, hfirst.env, List.filterMap_append, List.reverse_append, List.lookup_append,
      Option.or_assoc]

/-! ## One action -/

/-- A command that is not logged and sets no variable. -/
theorem trail_quiet (hlogged : command.isLogged = false) (hexport : command.export? = none)
    (hlog : m'.log = m.log) (henv : m'.env = m.env) : Trail m [(command, options)] m' := by
  constructor
  · refine ⟨[], by rw [hlog, List.append_nil], ?_⟩
    simp [hlogged]
  · intro key
    simp [hexport, henv]

theorem trail_logged {text : Bytes} (hlogged : command.isLogged = true)
    (hexport : command.export? = none) (hrender : command.render = .ok text) :
    Trail m [(command, options)] (m.logged text options).1 := by
  constructor
  · refine ⟨[⟨text, options⟩], rfl, ?_⟩
    simpa [hlogged, Executed.Records] using hrender
  · intro key
    simp [hexport, logged]

theorem trail_setEnv (key value : Bytes) :
    Trail m [(.setEnv key value, options)] (m.setEnv key value).1 := by
  constructor
  · exact ⟨[], (List.append_nil _).symm, .nil⟩
  · intro name
    have hlookup : (m.setEnv key value).1.env.lookup name =
        if name = key then some value else m.env.lookup name := lookup_setVariable name key value m.env
    have hexport : ([(Command.setEnv key value, options)].filterMap
        fun action : Action => action.1.export?).reverse = [(key, value)] := rfl
    rw [hlookup, hexport, lookup_cons]
    split <;> rfl

/-- An operation on files leaves the log and the variables alone. -/
theorem edited_keeps {α : Type} (m : Machine) (edit : Edit α) (events : α → List Event) :
    (m.edited edit events).machine.log = m.log ∧ (m.edited edit events).machine.env = m.env := by
  obtain ⟨root, result⟩ := edit
  cases result <;> exact ⟨rfl, rfl⟩

/-- A command that looks at its paths first and then leaves the log and the variables alone. -/
theorem trail_withPath (hlogged : command.isLogged = false) (hexport : command.export? = none)
    {outcome : Outcome} (hlog : outcome.machine.log = m.log) (henv : outcome.machine.env = m.env)
    (check : Except PathFault Unit) :
    Trail m [(command, options)] (m.withPath check fun _ => outcome).machine := by
  cases check with
  | ok value => exact trail_quiet hlogged hexport hlog henv
  | error fault => exact trail_quiet hlogged hexport rfl rfl

/-- **The trail of one action.** -/
theorem trail_perform (m : Machine) (command : Command) (options : List CommandOption) :
    Trail m [(command, options)] (m.perform command options).machine := by
  cases command with
  | raw text => exact trail_logged rfl rfl rfl
  | echo text => exact trail_logged rfl rfl rfl
  | newline => exact trail_logged rfl rfl rfl
  | setEnv key value => exact trail_setEnv key value
  -- the others work on files or the working directory, if they go through
  | changeDir path => refine trail_withPath rfl rfl ?_ ?_ _ <;> rfl
  | remove path => refine trail_withPath rfl rfl ?_ ?_ _ <;> rfl
  | writeFile path data =>
    exact trail_withPath rfl rfl (edited_keeps m _ _).1 (edited_keeps m _ _).2 _
  | makeDir path => exact trail_withPath rfl rfl (edited_keeps m _ _).1 (edited_keeps m _ _).2 _
  | copy source target =>
    exact trail_withPath rfl rfl (edited_keeps m _ _).1 (edited_keeps m _ _).2 _
  | move source target =>
    exact trail_withPath rfl rfl (edited_keeps m _ _).1 (edited_keeps m _ _).2 _
  | missing => exact trail_quiet rfl rfl rfl rfl
  | reference inner => exact trail_quiet rfl rfl rfl rfl

/-! ## Paths and runs -/

/-- **The trail of a path.** -/
theorem trail_performAll (h : m.performAll actions = some m') : Trail m actions m' := by
  induction actions generalizing m with
  | nil =>
    obtain rfl : m = m' := Option.some.inj h
    exact trail_nil m
  | cons head rest ih =>
    obtain ⟨command, options⟩ := head
    cases hfault : (m.perform command options).fault? with
    | some fault =>
      simp only [performAll, hfault] at h
      cases h
    | none =>
      simp only [performAll, hfault] at h
      exact trail_append (trail_perform m command options) (ih h)

/-- **A run is the execution of one path, and leaves what the path says.** If a run goes through, there
is a path through its statement, with the choice at each branch made on the machine as it is when the
branch is reached: the actions of the path, done one after the other, lead to the machine that the run
ends with. The log has grown by one entry for each action of the path that prints or is shell text,
with the text that a script has for it and its options; each variable has the last value that was
exported on the path, or the one it had. And whether it goes through or fails, no run changes what was
in the log before. -/
theorem run_follows_one_path (m : Machine) (s : Statement) :
    m.log <+: (m.run s).machine.log ∧
    ((m.run s).fault? = none → ∃ actions : List Action,
      Completes m s actions (m.run s).machine ∧
      m.performAll actions = some (m.run s).machine ∧
      (∃ entries, (m.run s).machine.log = m.log ++ entries ∧
        List.Forall₂ (fun action entry => action.1.render = .ok entry.command ∧ entry.options = action.2)
          (actions.filter fun action => action.1.isLogged) entries) ∧
      ∀ key, (m.run s).machine.env.lookup key =
        ((actions.filterMap fun action => action.1.export?).reverse.lookup key).or
          (m.env.lookup key)) := by
  constructor
  · obtain ⟨actions, hactions⟩ := exists_performAll m s
    obtain ⟨entries, hlog, -⟩ := (trail_performAll hactions).log
    exact ⟨entries, hlog.symm⟩
  · intro hdone
    cases explains_run m s with
    | failed actions fault hfault path =>
      rw [hdone] at hfault
      cases hfault
    | completed actions hnone path =>
      have htrail := trail_performAll path.performAll
      exact ⟨actions, path, path.performAll, htrail.log, htrail.env⟩

/-- A script that asks for a directory that it has made itself, and exports a variable twice. -/
def askingScript : Statement :=
  .sequence [
    .action (.setEnv (bytes "K") (bytes "old")) [],
    .action (.makeDir (bytes "d")) [],
    .fold (bytes "f") (.branch (.isDirectory (bytes "d"))
      (.sequence [.action (.echo (bytes "made")) [.echo, .missing], .action (.changeDir (bytes "d")) []])
      (.action (.raw (bytes "mkdir d")) [])),
    .branch (.present (bytes "d")) (.action .newline []) .missing,
    .action (.setEnv (bytes "K") (bytes "new")) []]

/-- The first branch finds the directory; the second one is reached after a change into it, and finds
nothing there. -/
theorem run_follows_one_path_sample :
    (fresh.run askingScript).fault? = none ∧
    (fresh.run askingScript).machine.log = [⟨bytes "echo made", [.echo, .missing]⟩] ∧
    (fresh.run askingScript).machine.env.lookup (bytes "K") = some (bytes "new") ∧
    ∃ actions, Completes fresh askingScript actions (fresh.run askingScript).machine ∧
      fresh.performAll actions = some (fresh.run askingScript).machine := by
  have hdone : (fresh.run askingScript).fault? = none := by decide +kernel
  obtain ⟨actions, hpath, hactions, -, -⟩ := (run_follows_one_path fresh askingScript).2 hdone
  exact ⟨hdone, by decide +kernel, by decide +kernel, actions, hpath, hactions⟩

end Machine

end BuildScript
