import BuildScript.Proofs.Machine.Failure

/-!
# Runs as paths of actions

A run follows one path through a statement: a row of actions, with the choices at the branches made
on the machine as it is when the branch is reached.

* `Machine.Completes`: a path to the end of a statement.
* `Machine.Fails`: a path to the point of a statement where something cannot be done. The point itself
  adds nothing: the machine is the one that the path leads to.
* `Machine.performAll`: the actions of a path done one after the other.
* `explains_run`, `Completes.run`, `Fails.run`: **a run ends where such a path ends**, well or with a
  fault.
* `run_keeps`: **what one action keeps, a run keeps.**
* `failed_run_keeps_completed`: what a failing operation and a failing run leave behind.
-/

namespace BuildScript

/-- A command with its options. -/
abbrev Action := Command × List CommandOption

namespace Machine

/-- A statement is run to its end: from one machine, through some actions, to another machine. -/
inductive Completes : Machine → Statement → List Action → Machine → Prop where
  | missing (m : Machine) : Completes m .missing [] m
  | noop (m : Machine) : Completes m .noop [] m
  | action {m : Machine} {command : Command} {options : List CommandOption}
      (h : (m.perform command options).fault? = none) :
      Completes m (.action command options) [(command, options)] (m.perform command options).machine
  | nil (m : Machine) : Completes m (.sequence []) [] m
  | cons {m m₁ m₂ : Machine} {statement : Statement} {rest : List Statement} {first next : List Action}
      (head : Completes m statement first m₁) (tail : Completes m₁ (.sequence rest) next m₂) :
      Completes m (.sequence (statement :: rest)) (first ++ next) m₂
  | fold {m m₁ : Machine} {name : Bytes} {body : Statement} {actions : List Action}
      (h : Completes m body actions m₁) : Completes m (.fold name body) actions m₁
  | onTrue {m m₁ : Machine} {condition : Condition} {yes no : Statement} {actions : List Action}
      (value : m.eval condition = .ok true) (h : Completes m yes actions m₁) :
      Completes m (.branch condition yes no) actions m₁
  | onFalse {m m₁ : Machine} {condition : Condition} {yes no : Statement} {actions : List Action}
      (value : m.eval condition = .ok false) (h : Completes m no actions m₁) :
      Completes m (.branch condition yes no) actions m₁

/-- A statement is run up to a fault: from one machine, through the actions that were completed, to
the machine on which the next thing cannot be done. -/
inductive Fails : Machine → Statement → List Action → Machine → RunFault → Prop where
  | action {m : Machine} {command : Command} {options : List CommandOption} {fault : RunFault}
      (h : (m.perform command options).fault? = some fault) :
      Fails m (.action command options) [] m fault
  | condition {m : Machine} {condition : Condition} {yes no : Statement} {fault : RunFault}
      (h : m.eval condition = .error fault) : Fails m (.branch condition yes no) [] m fault
  | reference (m : Machine) (statement : Statement) :
      Fails m (.reference statement) [] m (.statement (Statement.reference statement).typeName)
  | head {m m₁ : Machine} {statement : Statement} {rest : List Statement} {actions : List Action}
      {fault : RunFault} (h : Fails m statement actions m₁ fault) :
      Fails m (.sequence (statement :: rest)) actions m₁ fault
  | tail {m m₁ m₂ : Machine} {statement : Statement} {rest : List Statement}
      {first next : List Action} {fault : RunFault} (head : Completes m statement first m₁)
      (h : Fails m₁ (.sequence rest) next m₂ fault) :
      Fails m (.sequence (statement :: rest)) (first ++ next) m₂ fault
  | fold {m m₁ : Machine} {name : Bytes} {body : Statement} {actions : List Action}
      {fault : RunFault} (h : Fails m body actions m₁ fault) :
      Fails m (.fold name body) actions m₁ fault
  | onTrue {m m₁ : Machine} {condition : Condition} {yes no : Statement} {actions : List Action}
      {fault : RunFault} (value : m.eval condition = .ok true) (h : Fails m yes actions m₁ fault) :
      Fails m (.branch condition yes no) actions m₁ fault
  | onFalse {m m₁ : Machine} {condition : Condition} {yes no : Statement} {actions : List Action}
      {fault : RunFault} (value : m.eval condition = .ok false) (h : Fails m no actions m₁ fault) :
      Fails m (.branch condition yes no) actions m₁ fault

/-- Actions done one after the other. There is no result if one of them fails. -/
def performAll (machine : Machine) : List Action → Option Machine
  | [] => some machine
  | (command, options) :: rest =>
    match (machine.perform command options).fault? with
    | none => (machine.perform command options).machine.performAll rest
    | some _ => none

theorem performAll_append (m : Machine) (first next : List Action) :
    m.performAll (first ++ next) = (m.performAll first).bind (performAll · next) := by
  induction first generalizing m with
  | nil => rfl
  | cons head rest ih =>
    obtain ⟨command, options⟩ := head
    cases h : (m.perform command options).fault? with
    | none => simp only [List.cons_append, performAll, h, ih]
    | some fault => simp only [List.cons_append, performAll, h, Option.bind_none]

variable {m m' : Machine} {statement : Statement} {actions : List Action} {fault : RunFault}

/-- A path leads where its actions lead. -/
theorem Completes.performAll (h : Completes m statement actions m') :
    m.performAll actions = some m' := by
  induction h with
  | missing m => rfl
  | noop m => rfl
  | action h => simp only [Machine.performAll, h]
  | nil m => rfl
  | cons head tail ihHead ihTail => rw [performAll_append, ihHead, Option.bind_some, ihTail]
  | fold h ih => exact ih
  | onTrue value h ih => exact ih
  | onFalse value h ih => exact ih

/-- A path to a fault leads where the completed actions lead. -/
theorem Fails.performAll (h : Fails m statement actions m' fault) :
    m.performAll actions = some m' := by
  induction h with
  | action h => rfl
  | condition h => rfl
  | reference m statement => rfl
  | head h ih => exact ih
  | tail head h ih => rw [performAll_append, head.performAll, Option.bind_some, ih]
  | fold h ih => exact ih
  | onTrue value h ih => exact ih
  | onFalse value h ih => exact ih

/-! ## Runs follow paths -/

/-- What an outcome says of the statement that was run: there is a path to its end, or to a fault. -/
inductive Explains (m : Machine) (statement : Statement) (outcome : Outcome) : Prop where
  | completed (actions : List Action) (none : outcome.fault? = none)
      (path : Completes m statement actions outcome.machine)
  | failed (actions : List Action) (fault : RunFault) (some : outcome.fault? = some fault)
      (path : Fails m statement actions outcome.machine fault)

/-- Paths through one statement that are paths through another explain its outcome too. -/
theorem Explains.lift {inner : Statement} {outcome outcome' : Outcome}
    (hmachine : outcome'.machine = outcome.machine) (hfault : outcome'.fault? = outcome.fault?)
    (hcompletes : ∀ actions m', Completes m inner actions m' → Completes m statement actions m')
    (hfails : ∀ actions m' fault, Fails m inner actions m' fault → Fails m statement actions m' fault)
    (h : Explains m inner outcome) : Explains m statement outcome' := by
  cases h with
  | completed actions none path =>
    refine .completed actions (hfault.trans none) ?_
    rw [hmachine]
    exact hcompletes _ _ path
  | failed actions fault some path =>
    refine .failed actions fault (hfault.trans some) ?_
    rw [hmachine]
    exact hfails _ _ _ path

theorem andThen_of_none {first : Outcome} (next : Machine → Outcome) (h : first.fault? = none) :
    (first.andThen next).machine = (next first.machine).machine ∧
      (first.andThen next).fault? = (next first.machine).fault? := by
  simp only [Outcome.andThen, h, and_self]

theorem andThen_of_some {first : Outcome} {next : Machine → Outcome}
    (h : first.fault? = some fault) : first.andThen next = first := by
  simp only [Outcome.andThen, h]

/-- A sequence is run one statement at a time. -/
theorem run_cons (m : Machine) (statement : Statement) (rest : List Statement) :
    m.run (.sequence (statement :: rest)) =
      (m.run statement).andThen fun m => m.run (.sequence rest) := by
  simp only [run, runAll]

/-- The marks around a fold are reported, and change neither the machine nor the fault. -/
theorem run_fold (m : Machine) (name : Bytes) (body : Statement) :
    (m.run (.fold name body)).machine = (m.run body).machine ∧
      (m.run (.fold name body)).fault? = (m.run body).fault? := by
  cases h : (m.run body).fault? with
  | none => simp [run, Outcome.andThen, Outcome.done, h]
  | some fault => simp [run, Outcome.andThen, Outcome.done, h]

mutual
/-- **A run follows a path through its statement.** -/
theorem explains_run (m : Machine) (statement : Statement) :
    Explains m statement (m.run statement) := by
  cases statement with
  | missing => exact .completed [] rfl (.missing m)
  | noop => exact .completed [] rfl (.noop m)
  | sequence statements => exact explains_runAll m statements
  | fold name body =>
    obtain ⟨hmachine, hfault⟩ := run_fold m name body
    exact (explains_run m body).lift hmachine hfault (fun _ _ => .fold) (fun _ _ _ => .fold)
  | action command options =>
    cases h : (m.perform command options).fault? with
    | none => exact .completed [(command, options)] h (.action h)
    | some fault =>
      -- the machine that the failing command leaves is the one it was given
      have hkeep : m.run (.action command options) = .failed m fault :=
        allOrNothing_perform command options fault h
      rw [hkeep]
      exact .failed [] fault rfl (.action h)
  | branch condition yes no =>
    cases h : m.eval condition with
    | error fault =>
      simp only [run, h]
      exact .failed [] fault rfl (.condition h)
    | ok value =>
      cases value with
      | true =>
        simp only [run, h]
        exact (explains_run m yes).lift rfl rfl (fun _ _ => .onTrue h) (fun _ _ _ => .onTrue h)
      | false =>
        simp only [run, h]
        exact (explains_run m no).lift rfl rfl (fun _ _ => .onFalse h) (fun _ _ _ => .onFalse h)
  | reference statement => exact .failed [] _ rfl (.reference m statement)
/-- Statements in a row are followed one after the other. -/
theorem explains_runAll (m : Machine) (statements : List Statement) :
    Explains m (.sequence statements) (m.runAll statements) := by
  cases statements with
  | nil => exact .completed [] rfl (.nil m)
  | cons statement rest =>
    cases explains_run m statement with
    | failed actions fault some path =>
      rw [runAll, andThen_of_some some]
      exact .failed actions fault some (.head path)
    | completed first none path =>
      obtain ⟨hmachine, hfault⟩ := andThen_of_none (fun m => m.runAll rest) none
      cases explains_runAll (m.run statement).machine rest with
      | completed next none' path' =>
        exact .completed (first ++ next) (hfault.trans none') (hmachine ▸ .cons path path')
      | failed next fault some path' =>
        exact .failed (first ++ next) fault (hfault.trans some) (hmachine ▸ .tail path path')
end

/-- A run ends where a path through its statement ends. -/
theorem Completes.run (h : Completes m statement actions m') :
    (m.run statement).machine = m' ∧ (m.run statement).fault? = none := by
  induction h with
  | missing m => exact ⟨rfl, rfl⟩
  | noop m => exact ⟨rfl, rfl⟩
  | action h => exact ⟨rfl, h⟩
  | nil m => exact ⟨rfl, rfl⟩
  | @cons m m₁ m₂ statement rest first next head tail ihHead ihTail =>
    obtain ⟨hmachine, hfault⟩ := andThen_of_none (fun m => m.run (.sequence rest)) ihHead.2
    rw [run_cons, hmachine, hfault, ihHead.1]
    exact ihTail
  | @fold m m₁ name body actions h ih =>
    rw [(run_fold m name body).1, (run_fold m name body).2]
    exact ih
  | onTrue value h ih => simpa only [Machine.run, value] using ih
  | onFalse value h ih => simpa only [Machine.run, value] using ih

/-- A run ends where a path to a fault ends. -/
theorem Fails.run (h : Fails m statement actions m' fault) :
    (m.run statement).machine = m' ∧ (m.run statement).fault? = some fault := by
  induction h with
  | @action m command options fault h =>
    have hkeep : m.run (.action command options) = .failed m fault :=
      allOrNothing_perform command options fault h
    rw [hkeep]
    exact ⟨rfl, rfl⟩
  | condition h => simp only [Machine.run, h, Outcome.failed, and_self]
  | reference m statement => exact ⟨rfl, rfl⟩
  | @head m m₁ statement rest actions fault h ih =>
    rw [run_cons, andThen_of_some ih.2]
    exact ih
  | @tail m m₁ m₂ statement rest first next fault head h ih =>
    obtain ⟨hmachine, hfault⟩ := andThen_of_none (fun m => m.run (.sequence rest)) head.run.2
    rw [run_cons, hmachine, hfault, head.run.1]
    exact ih
  | @fold m m₁ name body actions fault h ih =>
    rw [(run_fold m name body).1, (run_fold m name body).2]
    exact ih
  | onTrue value h ih => simpa only [Machine.run, value] using ih
  | onFalse value h ih => simpa only [Machine.run, value] using ih

/-- **A run fails exactly where a path to a fault ends.** -/
theorem fails_iff : ((m.run statement).machine = m' ∧ (m.run statement).fault? = some fault) ↔
    ∃ completed, Fails m statement completed m' fault := by
  constructor
  · rintro ⟨rfl, hfault⟩
    cases explains_run m statement with
    | completed actions none path =>
      rw [hfault] at none
      cases none
    | failed actions found some path =>
      rw [hfault] at some
      cases some
      exact ⟨actions, path⟩
  · rintro ⟨completed, path⟩
    exact path.run

/-- A run leaves the machine as some row of actions does, whether it fails or not. -/
theorem exists_performAll (m : Machine) (statement : Statement) :
    ∃ actions, m.performAll actions = some (m.run statement).machine := by
  cases explains_run m statement with
  | completed actions none path => exact ⟨actions, path.performAll⟩
  | failed actions fault some path => exact ⟨actions, path.performAll⟩

/-- What one action keeps, a row of actions keeps. -/
theorem performAll_keeps {I : Machine → Prop}
    (hstep : ∀ (m : Machine) (command : Command) (options : List CommandOption), I m →
      (m.perform command options).fault? = none → I (m.perform command options).machine) :
    ∀ (actions : List Action) (m : Machine), I m → m.performAll actions = some m' → I m' := by
  intro actions
  induction actions with
  | nil =>
    intro m hm h
    cases h
    exact hm
  | cons head rest ih =>
    intro m hm h
    obtain ⟨command, options⟩ := head
    cases hfault : (m.perform command options).fault? with
    | some fault =>
      simp only [performAll, hfault] at h
      cases h
    | none =>
      simp only [performAll, hfault] at h
      exact ih _ (hstep m command options hm hfault) h

/-- **What one action keeps, a run keeps**, whether it fails or not. -/
theorem run_keeps {I : Machine → Prop}
    (hstep : ∀ (m : Machine) (command : Command) (options : List CommandOption), I m →
      (m.perform command options).fault? = none → I (m.perform command options).machine)
    (hm : I m) (statement : Statement) : I (m.run statement).machine := by
  obtain ⟨actions, hactions⟩ := exists_performAll m statement
  exact performAll_keeps hstep actions m hm hactions

/-- **Nothing is half done.** Making a directory, writing, copying and moving leave the machine as it
was if they fail, and report nothing. So a run that fails leaves the machine exactly as the actions
that were completed before the fault have made it. -/
theorem failed_run_keeps_completed (m : Machine) :
    (∀ path, (m.makeDir path).AllOrNothing m) ∧
    (∀ path data, (m.put path data).AllOrNothing m) ∧
    (∀ source target, (m.copy source target).AllOrNothing m) ∧
    (∀ source target, (m.move source target).AllOrNothing m) ∧
    ∀ (statement : Statement) (m' : Machine) (fault : RunFault),
      ((m.run statement).machine = m' ∧ (m.run statement).fault? = some fault) ↔
        ∃ completed, Fails m statement completed m' fault ∧ m.performAll completed = some m' := by
  refine ⟨fun path => ?_, fun path data => ?_, fun source target => ?_, fun source target => ?_, ?_⟩
  · exact allOrNothing_edited _ (Folder.allOrNothing_makeDir _)
  · exact allOrNothing_edited _ (Folder.allOrNothing_put _ _)
  · exact allOrNothing_edited _ (Folder.allOrNothing_copy _ _)
  · exact allOrNothing_edited _ (Folder.allOrNothing_move _ _)
  · intro statement m' fault
    rw [fails_iff]
    constructor
    · rintro ⟨completed, path⟩
      exact ⟨completed, path, path.performAll⟩
    · rintro ⟨completed, path, -⟩
      exact ⟨completed, path⟩

/-- A machine with a file in its home directory. -/
def withNote : Machine := (fresh.put (bytes "note") []).machine

/-- A script that makes a directory and then writes a file of the same name. -/
def clash : Statement :=
  .sequence [.action (.makeDir (bytes "x/y")) [], .action (.writeFile (bytes "x/y") []) [],
    .action .newline []]

/-- A directory below a file, a file in place of a directory, a directory copied into itself and a
move of nothing; and a run that gets as far as its first action. -/
theorem failed_run_keeps_completed_sample :
    withNote.makeDir (bytes "note/x") =
      ⟨withNote, [], some (.notDirectory (bytes "/home/travis/note"))⟩ ∧
    withNote.put (bytes "/home") [] = ⟨withNote, [], some (.isDirectory (bytes "/home"))⟩ ∧
    withNote.copy (bytes "/home") (bytes "x") =
      ⟨withNote, [], some (.copyIntoSelf (bytes "/home") (bytes "/home/travis/x"))⟩ ∧
    withNote.move (bytes "x") (bytes "y") =
      ⟨withNote, [], some (.notFound (bytes "/home/travis/x"))⟩ ∧
    withNote.performAll [(.makeDir (bytes "x/y"), [])] = some (withNote.run clash).machine ∧
    ∃ completed, Fails withNote clash completed (withNote.run clash).machine
      (.file (.isDirectory (bytes "/home/travis/x/y"))) ∧
      withNote.performAll completed = some (withNote.run clash).machine := by
  obtain ⟨hmake, hput, hcopy, hmove, hrun⟩ := failed_run_keeps_completed withNote
  exact ⟨hmake _ _ (by decide +kernel), hput _ _ _ (by decide +kernel),
    hcopy _ _ _ (by decide +kernel), hmove _ _ _ (by decide +kernel), by rfl,
    (hrun clash _ _).1 ⟨rfl, by decide +kernel⟩⟩

end Machine

end BuildScript
