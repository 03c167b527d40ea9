import BuildScript.Machine.Run
import BuildScript.Shell.Render
import Mathlib.Logic.Relation

/-!
# What leaves a script as it is

A run sees only the actions of a tree and the branches between them: how they are grouped does not
matter to it. The text of a tree shows more, since an empty sequence takes a line and a noop does not,
so fewer changes leave the text as it is.

* `Statement.flat`: a statement without noops in its sequences, sequences in sequences, and folds.
* `Machine.run_flat`: **a flat statement runs as the statement does**, without the marks of folds.
* `Statement.Repads`: one change to the noops of a statement.
* `Statement.Repads.render`: **the text does not show noops.**
-/

namespace BuildScript

namespace Statement

/-- Whether a statement in a sequence is absorbed by it. -/
def isAbsorbed : Statement → Bool
  | missing | noop | sequence _ => true
  | _ => false

/-- What a statement adds to a sequence that it stands in. -/
def spliced : Statement → List Statement
  | missing | noop => []
  | sequence statements => statements
  | statement => [statement]

mutual
/-- The statement with its empty places filled, its sequences joined and its folds opened. -/
def flat : Statement → Statement
  | missing | noop => noop
  | sequence statements => sequence (flatEach statements)
  | fold _ body => body.flat
  | action command options => action command options
  | branch condition onTrue onFalse => branch condition onTrue.flat onFalse.flat
  -- nothing runs what a reference refers to, and the message about it names that statement's type
  | reference statement => reference statement
/-- Flat statements in a row, joined into one row. -/
def flatEach : List Statement → List Statement
  | [] => []
  | statement :: rest => statement.flat.spliced ++ flatEach rest
end

mutual
/-- Whether no place is empty, no fold is left, and sequences hold nothing that they absorb. -/
def isFlat : Statement → Bool
  | missing | fold _ _ => false
  | sequence statements => areFlat statements
  | branch _ onTrue onFalse => onTrue.isFlat && onFalse.isFlat
  | noop | action _ _ | reference _ => true
/-- Whether a row is one that a flat sequence may hold. -/
def areFlat : List Statement → Bool
  | [] => true
  | statement :: rest => statement.isFlat && !statement.isAbsorbed && areFlat rest
end

theorem areFlat_append (first next : List Statement) :
    areFlat (first ++ next) = (areFlat first && areFlat next) := by
  induction first with
  | nil => rfl
  | cons statement rest ih => simp only [List.cons_append, areFlat, ih, Bool.and_assoc]

theorem areFlat_spliced {statement : Statement} (h : statement.isFlat = true) :
    areFlat statement.spliced = true := by
  cases statement with
  | missing | noop => rfl
  | sequence statements => exact h
  | fold name body => cases h
  | action command options => rfl
  | reference statement => rfl
  | branch condition onTrue onFalse =>
    simp only [spliced, areFlat, h, isAbsorbed, Bool.not_false, Bool.and_self]

mutual
theorem isFlat_flat (statement : Statement) : statement.flat.isFlat = true := by
  cases statement with
  | missing | noop => rfl
  | sequence statements => exact areFlat_flatEach statements
  | fold name body => exact isFlat_flat body
  | action command options => rfl
  | branch condition onTrue onFalse =>
    simp only [flat, isFlat, isFlat_flat onTrue, isFlat_flat onFalse, Bool.and_self]
  | reference statement => rfl
theorem areFlat_flatEach (statements : List Statement) : areFlat (flatEach statements) = true := by
  cases statements with
  | nil => rfl
  | cons statement rest =>
    rw [flatEach, areFlat_append, areFlat_spliced (isFlat_flat statement), areFlat_flatEach rest,
      Bool.and_self]
end

end Statement

/-! ## Runs -/

/-- Whether an event marks the start or the end of a fold. -/
def Event.isFold : Event → Bool
  | .fold _ _ => true
  | _ => false

namespace Outcome

/-- An outcome without the marks of folds. -/
def unmarked (outcome : Outcome) : Outcome :=
  { outcome with events := outcome.events.filter fun event => !event.isFold }

theorem andThen_done (outcome : Outcome) : (outcome.andThen fun m => done (m, [])) = outcome := by
  obtain ⟨machine, events, fault?⟩ := outcome
  cases fault? with
  | none => simp only [andThen, done, List.append_nil]
  | some fault => rfl

theorem andThen_assoc (first : Outcome) (next last : Machine → Outcome) :
    (first.andThen next).andThen last = first.andThen fun m => (next m).andThen last := by
  obtain ⟨machine, events, fault?⟩ := first
  cases fault? with
  | some fault => rfl
  | none =>
    cases h : (next machine).fault? with
    | none => simp only [andThen, h, List.append_assoc]
    | some fault => simp only [andThen, h]

theorem unmarked_andThen (first : Outcome) (next : Machine → Outcome) :
    (first.andThen next).unmarked = first.unmarked.andThen fun m => (next m).unmarked := by
  obtain ⟨machine, events, fault?⟩ := first
  cases fault? with
  | none => simp only [andThen, unmarked, List.filter_append]
  | some fault => rfl

end Outcome

namespace Machine

open Outcome

theorem unmarked_withPath (m : Machine) (check : Except PathFault Unit) {next : Unit → Outcome}
    (h : (next ()).unmarked = next ()) : (m.withPath check next).unmarked = m.withPath check next := by
  cases check with
  | ok value => exact h
  | error fault => rfl

theorem unmarked_edited {α : Type} (m : Machine) (edit : Edit α) {events : α → List Event}
    (h : ∀ value, (events value).filter (fun event => !event.isFold) = events value) :
    (ofChange (m.edited edit events)).unmarked = ofChange (m.edited edit events) := by
  obtain ⟨root, result⟩ := edit
  cases result with
  | ok value => simp only [edited, ofChange, unmarked, h]
  | error fault => rfl

/-- Only a fold marks its start and its end. -/
theorem unmarked_perform (m : Machine) (command : Command) (options : List CommandOption) :
    (m.perform command options).unmarked = m.perform command options := by
  cases command with
  | missing | raw _ | echo _ | newline | setEnv _ _ | reference _ => rfl
  | changeDir path => exact unmarked_withPath m _ rfl
  | remove path => exact unmarked_withPath m _ rfl
  | writeFile path data => exact unmarked_withPath m _ (unmarked_edited m _ fun _ => rfl)
  | makeDir path => exact unmarked_withPath m _ (unmarked_edited m _ fun _ => rfl)
  | copy source target => exact unmarked_withPath m _ (unmarked_edited m _ fun _ => rfl)
  | move source target =>
    refine unmarked_withPath m _ (unmarked_edited m _ fun landing => ?_)
    -- a move to the same place reports nothing at all
    split <;> rfl

theorem runAll_append (m : Machine) (first next : List Statement) :
    m.runAll (first ++ next) = (m.runAll first).andThen fun m => m.runAll next := by
  induction first generalizing m with
  | nil => rfl
  | cons statement rest ih => simp only [List.cons_append, runAll, ih, andThen_assoc]

/-- What a statement adds to a sequence runs as the statement does. -/
theorem runAll_spliced (m : Machine) (statement : Statement) :
    m.runAll statement.spliced = m.run statement := by
  cases statement with
  | missing | noop => rfl
  | sequence statements => rfl
  | fold _ _ | action _ _ | branch _ _ _ | reference _ => exact andThen_done _

mutual
/-- **A flat statement runs as the statement does**, but for the marks of the folds. -/
theorem run_flat (m : Machine) (statement : Statement) :
    m.run statement.flat = (m.run statement).unmarked := by
  cases statement with
  | missing | noop => rfl
  | sequence statements => exact runAll_flatEach m statements
  | fold name body =>
    -- the marks are all that a fold adds to the outcome of its body
    have hbody : (m.run (.fold name body)).unmarked = (m.run body).unmarked := by
      simp only [run, unmarked_andThen]
      exact andThen_done (m.run body).unmarked
    exact (run_flat m body).trans hbody.symm
  | action command options => exact (unmarked_perform m command options).symm
  | branch condition onTrue onFalse =>
    simp only [Statement.flat, run]
    cases m.eval condition with
    | error fault => rfl
    | ok value =>
      cases value with
      | true => exact run_flat m onTrue
      | false => exact run_flat m onFalse
  | reference statement => rfl
/-- A row of flat statements runs as the row does, but for the marks of the folds. -/
theorem runAll_flatEach (m : Machine) (statements : List Statement) :
    m.runAll (Statement.flatEach statements) = (m.runAll statements).unmarked := by
  cases statements with
  | nil => rfl
  | cons statement rest =>
    rw [Statement.flatEach, runAll_append, runAll_spliced, run_flat m statement, runAll,
      unmarked_andThen]
    -- the rest starts where the first statement ends, whatever machine that is
    exact congrArg _ (funext fun m => runAll_flatEach m rest)
end

end Machine

/-! ## Texts -/

namespace Statement

open Shell

/-- A statement turns into another by one change to its noops: one is exchanged for another kind, or is
put into a sequence or taken out of one. -/
inductive Repads : Statement → Statement → Prop where
  | exchange {s t : Statement} (hs : s.isNoop = true) (ht : t.isNoop = true) : Repads s t
  | insert {s : Statement} (before after : List Statement) (h : s.isNoop = true) :
      Repads (.sequence (before ++ after)) (.sequence (before ++ s :: after))
  | drop {s : Statement} (before after : List Statement) (h : s.isNoop = true) :
      Repads (.sequence (before ++ s :: after)) (.sequence (before ++ after))
  | inSequence {s t : Statement} (before after : List Statement) (h : Repads s t) :
      Repads (.sequence (before ++ s :: after)) (.sequence (before ++ t :: after))
  | inFold {s t : Statement} (name : Bytes) (h : Repads s t) : Repads (.fold name s) (.fold name t)
  | onTrue {s t : Statement} (condition : Condition) (other : Statement) (h : Repads s t) :
      Repads (.branch condition s other) (.branch condition t other)
  | onFalse {s t : Statement} (condition : Condition) (other : Statement) (h : Repads s t) :
      Repads (.branch condition other s) (.branch condition other t)

theorem renderEach_append (first next : List Statement) :
    renderEach (first ++ next) = do
      let texts ← renderEach first
      let more ← renderEach next
      return texts ++ more := by
  induction first with
  | nil => simp only [List.nil_append, renderEach, pure_bind, bind_pure]
  | cons statement rest ih =>
    by_cases h : statement.isNoop = true
    · simp only [List.cons_append, renderEach, if_pos h, ih]
    · simp only [List.cons_append, renderEach, if_neg h, ih, bind_assoc, pure_bind]

theorem renderEach_noop {s : Statement} (h : s.isNoop = true) (rest : List Statement) :
    renderEach (s :: rest) = renderEach rest := by
  rw [renderEach, if_pos h]

theorem Repads.isNoop_eq {s t : Statement} (h : Repads s t) : s.isNoop = t.isNoop := by
  cases h with
  | exchange hs ht => rw [hs, ht]
  | insert | drop | inSequence | inFold | onTrue | onFalse => rfl

theorem isBranch_of_isNoop {s : Statement} (h : s.isNoop = true) : s.isBranch = false := by
  rcases eq_of_isNoop h with rfl | rfl <;> rfl

theorem Repads.isBranch_eq {s t : Statement} (h : Repads s t) : s.isBranch = t.isBranch := by
  cases h with
  | exchange hs ht => rw [isBranch_of_isNoop hs, isBranch_of_isNoop ht]
  | insert | drop | inSequence | inFold | onTrue | onFalse => rfl

theorem render_of_isNoop {s : Statement} (h : s.isNoop = true) : s.render = .ok [] := by
  rcases eq_of_isNoop h with rfl | rfl <;> rfl

/-- **The text does not show noops.** -/
theorem Repads.render {s t : Statement} (h : Repads s t) : t.render = s.render := by
  induction h with
  | exchange hs ht => rw [render_of_isNoop hs, render_of_isNoop ht]
  | insert before after h =>
    simp only [Statement.render, renderEach_append, renderEach_noop h]
  | drop before after h =>
    simp only [Statement.render, renderEach_append, renderEach_noop h]
  | inSequence before after h ih =>
    simp only [Statement.render, renderEach_append, renderEach, h.isNoop_eq, ih]
  | inFold name h ih => simp only [Statement.render, ih]
  | onTrue condition other h ih => simp only [Statement.render, ih]
  | onFalse condition other h ih =>
    simp only [Statement.render, ih, h.isNoop_eq, h.isBranch_eq]

/-- The text stays the same under any number of such changes. -/
theorem render_repadded {s t : Statement} (h : Relation.ReflTransGen Repads s t) :
    t.render = s.render := by
  induction h with
  | refl => rfl
  | tail _ hstep ih => exact hstep.render.trans ih

end Statement

/-- **Noops, empty places, nesting and folds make no difference.** Every statement can be made flat. On
every machine the flat statement ends as the statement does, with the same machine and the same fault,
and it reports the same events but for the marks of folds. And whatever noops are exchanged, put in or
taken out at any depth, the statement has the same text, or the same reason to have none. -/
theorem grouping_is_neutral :
    (∀ s : Statement, s.flat.isFlat = true ∧ ∀ m : Machine,
      (m.run s.flat).machine = (m.run s).machine ∧
      (m.run s.flat).fault? = (m.run s).fault? ∧
      (m.run s.flat).events = (m.run s).events.filter fun event => !event.isFold) ∧
    ∀ s t : Statement, Relation.ReflTransGen Statement.Repads s t → t.render = s.render := by
  constructor
  · intro s
    refine ⟨Statement.isFlat_flat s, fun m => ?_⟩
    rw [Machine.run_flat m s]
    exact ⟨rfl, rfl, rfl⟩
  · intro s t h
    exact Statement.render_repadded h

/-- A script with a noop and a nested sequence that fails inside a fold. -/
def paddedSample : Statement :=
  .sequence [.noop, .sequence [.action (.makeDir (bytes "d")) [], .missing],
    .fold (bytes "f") (.sequence [.action .newline [],
      .branch (.isDirectory (bytes "d")) (.action (.writeFile (bytes "d") []) []) .missing])]

/-- The same script with other noops. -/
def repaddedSample : Statement :=
  .sequence [.sequence [.action (.makeDir (bytes "d")) [], .missing],
    .fold (bytes "f") (.sequence [.action .newline [],
      .branch (.isDirectory (bytes "d")) (.action (.writeFile (bytes "d") []) []) .noop])]

/-- The run fails at the same point, and reports the marks of the fold no more. -/
theorem grouping_is_neutral_sample :
    paddedSample.flat = .sequence [.action (.makeDir (bytes "d")) [], .action .newline [],
      .branch (.isDirectory (bytes "d")) (.action (.writeFile (bytes "d") []) []) .noop] ∧
    (Machine.fresh.run paddedSample.flat).fault? =
      some (.file (.isDirectory (bytes "/home/travis/d"))) ∧
    (Machine.fresh.run paddedSample).events.length = 3 ∧
    (Machine.fresh.run paddedSample.flat).events.length = 2 ∧
    Relation.ReflTransGen Statement.Repads paddedSample repaddedSample ∧
    repaddedSample.render = paddedSample.render := by
  have hsteps : Relation.ReflTransGen Statement.Repads paddedSample repaddedSample := by
    refine .tail (.single (.drop [] _ rfl)) (.inSequence [_] [] (.inFold _ ?_))
    exact .inSequence [_] [] (.onFalse _ _ (.exchange rfl rfl))
  obtain ⟨-, hfault, hevents⟩ := (grouping_is_neutral.1 paddedSample).2 Machine.fresh
  refine ⟨rfl, ?_, by decide +kernel, ?_, hsteps, grouping_is_neutral.2 _ _ hsteps⟩
  · rw [hfault]
    decide +kernel
  · rw [hevents]
    decide +kernel

end BuildScript
