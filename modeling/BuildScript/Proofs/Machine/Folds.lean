import BuildScript.Proofs.Machine.Execution
import BuildScript.Proofs.Tree.Neutral

/-!
# Folds in the events of a run

A run marks where a fold starts and where it ends. The marks of a run match like brackets, and each event
between them comes from an action that is in the same folds of the statement.

* `Event.openAfter`: the folds that are open after some events; `Event.Balanced`: rows in which all marks
  match. `balanced_iff`: **the marks match exactly if every end has its start and nothing is left open.**
* `Statement.at?`, `Statement.foldsAround`: the node at a place of a statement, and the folds around it.
* `Machine.ComesTo`: a run comes to a place, with the events that were fired by then.
* `ComesTo.openAfter`: **the folds that are open then are those around the place.**
* `nests_run`: **each event is fired by an action that the run comes to**, and all of them by the time
  it comes to a node that cannot be done.
* `fold_events_nested`: the events of a run as a whole.
-/

namespace BuildScript

namespace Event

/-- The folds that are open after an event, the innermost one first. Only the innermost one can end. -/
def mark (stack : List Bytes) : Event → Option (List Bytes)
  | fold name true => some (name :: stack)
  | fold name false => if stack.head? = some name then some stack.tail else none
  | command _ _ _ _ | env _ _ | file _ _ _ => some stack

/-- The folds that are open after a row of events. -/
def openAfter (stack : List Bytes) (events : List Event) : Option (List Bytes) :=
  events.foldlM mark stack

/-- Rows of events in which each start of a fold has its end, with the same name. -/
inductive Balanced : List Event → Prop where
  | nil : Balanced []
  | other {event : Event} {rest : List Event} (h : event.isFold = false) (hrest : Balanced rest) :
      Balanced (event :: rest)
  | fold {name : Bytes} {inner rest : List Event} (hinner : Balanced inner) (hrest : Balanced rest) :
      Balanced (.fold name true :: (inner ++ .fold name false :: rest))

variable {stack result : List Bytes} {events first next : List Event} {event : Event} {name : Bytes}

theorem openAfter_append (stack : List Bytes) (first next : List Event) :
    openAfter stack (first ++ next) = (openAfter stack first).bind (openAfter · next) :=
  List.foldlM_append

theorem openAfter_cons (stack : List Bytes) (event : Event) (rest : List Event) :
    openAfter stack (event :: rest) = (mark stack event).bind (openAfter · rest) :=
  List.foldlM_cons

theorem mark_of_not_fold (h : event.isFold = false) : mark stack event = some stack := by
  cases event with
  | fold name start => cases h
  | _ => rfl

/-- Only the innermost fold can end. -/
theorem mark_end_iff : mark stack (.fold name false) = some result ↔ stack = name :: result := by
  cases stack with
  | nil => simp [mark]
  | cons top below => simp [mark]

theorem openAfter_ends (stack : List Bytes) :
    openAfter stack (stack.map fun name => .fold name false) = some [] := by
  induction stack with
  | nil => rfl
  | cons name stack ih =>
    have hend : mark (name :: stack) (.fold name false) = some stack := mark_end_iff.2 rfl
    rw [List.map_cons, openAfter_cons, hend, Option.bind_some, ih]

theorem Balanced.openAfter (h : Balanced events) (stack : List Bytes) :
    openAfter stack events = some stack := by
  induction h generalizing stack with
  | nil => rfl
  | other h hrest ih => rw [openAfter_cons, mark_of_not_fold h, Option.bind_some, ih]
  | @fold name inner rest hinner hrest ihInner ihRest =>
    have hend : mark (name :: stack) (.fold name false) = some stack := mark_end_iff.2 rfl
    rw [openAfter_cons, mark, Option.bind_some, openAfter_append, ihInner, Option.bind_some,
      openAfter_cons, hend, Option.bind_some, ihRest]

/-- Rows of events that end the folds of a stack one after the other, and match otherwise. -/
inductive Closes : List Bytes → List Event → Prop where
  | nil {events : List Event} (h : Balanced events) : Closes [] events
  | cons {name : Bytes} {stack : List Bytes} {inner rest : List Event} (hinner : Balanced inner)
      (hrest : Closes stack rest) : Closes (name :: stack) (inner ++ .fold name false :: rest)

theorem Closes.other (h : event.isFold = false) (hrest : Closes stack events) :
    Closes stack (event :: events) := by
  cases hrest with
  | nil hevents => exact .nil (.other h hevents)
  | cons hinner hrest => exact .cons (.other h hinner) hrest

theorem Closes.fold {inner : List Event} (hinner : Balanced inner) (hrest : Closes stack events) :
    Closes stack (.fold name true :: (inner ++ .fold name false :: events)) := by
  cases hrest with
  | nil hevents => exact .nil (.fold hinner hevents)
  | @cons outer stack between rest hbetween hrest =>
    have h : Closes (outer :: stack)
        ((.fold name true :: (inner ++ .fold name false :: between)) ++ .fold outer false :: rest) :=
      .cons (.fold hinner hbetween) hrest
    simpa using h

/-- What ends all open folds closes them in their order. -/
theorem closes_of_openAfter (h : openAfter stack events = some []) : Closes stack events := by
  -- for every stack: a start puts a name on it, and what follows the start then closes that name first
  induction events generalizing stack with
  | nil =>
    obtain rfl : stack = [] := Option.some.inj h
    exact .nil .nil
  | cons event rest ih =>
    rw [openAfter_cons] at h
    obtain ⟨between, hmark, hrest⟩ := Option.bind_eq_some_iff.1 h
    cases event with
    | fold name start =>
      cases start with
      | true =>
        cases hmark
        cases ih hrest with
        | cons hinner hcloses => exact .fold hinner hcloses
      | false =>
        obtain rfl := mark_end_iff.1 hmark
        exact .cons .nil (ih hrest)
    | _ =>
      cases hmark
      exact (ih hrest).other rfl

/-- **The marks match exactly if every end has its start and nothing is left open.** -/
theorem balanced_iff : Balanced events ↔ openAfter [] events = some [] := by
  constructor
  · exact fun h => h.openAfter []
  · intro h
    cases closes_of_openAfter h with
    | nil hevents => exact hevents

end Event

/-! ## Places -/

namespace Statement

/-- A child of a node, by its number. -/
def child? : Statement → Nat → Option Statement
  | sequence statements, i => statements[i]?
  | fold _ body, 0 => some body
  | branch _ onTrue _, 0 => some onTrue
  | branch _ _ onFalse, 1 => some onFalse
  | _, _ => none

/-- The node at a place, which is told by the numbers of the children on the way down. -/
def at? : Statement → List Nat → Option Statement
  | s, [] => some s
  | s, i :: place => (s.child? i).bind fun child => child.at? place

/-- The name of a fold. -/
def foldName? : Statement → Option Bytes
  | fold name _ => some name
  | _ => none

/-- The names of the folds around the node at a place, the outermost one first. -/
def foldsAround : Statement → List Nat → List Bytes
  | _, [] => []
  | s, i :: place => s.foldName?.toList ++ ((s.child? i).map fun child => child.foldsAround place).getD []

end Statement

namespace Machine

open Event

/-- A run of a statement comes to one of its nodes: the place of the node, the events that were fired by
then, the machine at that point, and the node. -/
inductive ComesTo : Machine → Statement → List Nat → List Event → Machine → Statement → Prop where
  | here (m : Machine) (s : Statement) : ComesTo m s [] [] m s
  | head {m m' : Machine} {first node : Statement} {rest : List Statement} {place : List Nat}
      {events : List Event} (h : ComesTo m first place events m' node) :
      ComesTo m (.sequence (first :: rest)) (0 :: place) events m' node
  | tail {m m' : Machine} {first node : Statement} {rest : List Statement} {i : Nat} {place : List Nat}
      {events : List Event} (done : (m.run first).fault? = none)
      (h : ComesTo (m.run first).machine (.sequence rest) (i :: place) events m' node) :
      ComesTo m (.sequence (first :: rest)) ((i + 1) :: place) ((m.run first).events ++ events) m' node
  | fold {m m' : Machine} {name : Bytes} {body node : Statement} {place : List Nat}
      {events : List Event} (h : ComesTo m body place events m' node) :
      ComesTo m (.fold name body) (0 :: place) (.fold name true :: events) m' node
  | onTrue {m m' : Machine} {condition : Condition} {yes no node : Statement} {place : List Nat}
      {events : List Event} (value : m.eval condition = .ok true)
      (h : ComesTo m yes place events m' node) :
      ComesTo m (.branch condition yes no) (0 :: place) events m' node
  | onFalse {m m' : Machine} {condition : Condition} {yes no node : Statement} {place : List Nat}
      {events : List Event} (value : m.eval condition = .ok false)
      (h : ComesTo m no place events m' node) :
      ComesTo m (.branch condition yes no) (1 :: place) events m' node

/-- A node that cannot be done on a machine, by itself and not because of a node below it. -/
inductive Stuck (m : Machine) : Statement → RunFault → Prop where
  | action {command : Command} {options : List CommandOption} {fault : RunFault}
      (h : (m.perform command options).fault? = some fault) : Stuck m (.action command options) fault
  | condition {condition : Condition} {yes no : Statement} {fault : RunFault}
      (h : m.eval condition = .error fault) : Stuck m (.branch condition yes no) fault
  | reference (s : Statement) : Stuck m (.reference s) (.statement (Statement.reference s).typeName)

variable {m m' : Machine} {s node : Statement} {place : List Nat} {events : List Event}

/-- The node that a run comes to is the one at the place. -/
theorem ComesTo.at? (h : ComesTo m s place events m' node) : s.at? place = some node := by
  induction h with
  | here m s => rfl
  | head h ih => exact ih
  | tail done h ih => exact ih
  | fold h ih => exact ih
  | onTrue value h ih => exact ih
  | onFalse value h ih => exact ih

/-! ## What is fired where -/

/-- How the events of an outcome stand to the nodes that are come to: the marks match if all went well,
each other event is fired by an action, and all events by the time something cannot be done. -/
structure Nests (At : List Event → Machine → Statement → Prop) (outcome : Outcome) : Prop where
  closed : outcome.fault? = none → ∀ stack, openAfter stack outcome.events = some stack
  fired : ∀ before event after, outcome.events = before ++ event :: after → event.isFold = false →
    ∃ m' command options, At before m' (.action command options) ∧
      (m'.perform command options).events = [event]
  stopped : ∀ fault, outcome.fault? = some fault →
    ∃ node, At outcome.events outcome.machine node ∧ Stuck outcome.machine node fault

variable {At At' : List Event → Machine → Statement → Prop} {fault : RunFault}

theorem nests_nothing (m : Machine) : Nests At (.done (m, [])) where
  closed _ _ := rfl
  fired before event after h _ := by simp [Outcome.done] at h
  stopped fault h := by cases h

theorem nests_failed (hat : At [] m node) (hstuck : Stuck m node fault) : Nests At (.failed m fault) where
  closed h := by cases h
  fired before event after h _ := by simp [Outcome.failed] at h
  stopped other h := by
    cases h
    exact ⟨node, hat, hstuck⟩

/-- At most one event, which marks no fold. -/
def FiresOne (events : List Event) : Prop :=
  events = [] ∨ ∃ event : Event, event.isFold = false ∧ events = [event]

theorem firesOne_file (operation path target : Bytes) : FiresOne [.file operation path target] :=
  Or.inr ⟨_, rfl, rfl⟩

theorem firesOne_edited {α : Type} (m : Machine) (edit : Edit α) {events : α → List Event}
    (h : ∀ value, FiresOne (events value)) : FiresOne (m.edited edit events).events := by
  obtain ⟨root, result⟩ := edit
  cases result with
  | ok value => exact h value
  | error fault => exact Or.inl rfl

theorem firesOne_withPath (m : Machine) (check : Except PathFault Unit) {outcome : Outcome}
    (h : FiresOne outcome.events) : FiresOne (m.withPath check fun _ => outcome).events := by
  cases check with
  | ok value => exact h
  | error fault => exact Or.inl rfl

/-- **An action fires at most one event**, which marks no fold. -/
theorem firesOne_perform (m : Machine) (command : Command) (options : List CommandOption) :
    FiresOne (m.perform command options).events := by
  cases command with
  | raw text => exact Or.inr ⟨_, rfl, rfl⟩
  | echo text => exact Or.inr ⟨_, rfl, rfl⟩
  | newline => exact Or.inr ⟨_, rfl, rfl⟩
  | setEnv key value => exact Or.inr ⟨_, rfl, rfl⟩
  | changeDir path => exact firesOne_withPath m _ (firesOne_file _ _ _)
  | remove path => exact firesOne_withPath m _ (firesOne_file _ _ _)
  | writeFile path data =>
    exact firesOne_withPath m _ (firesOne_edited m _ fun _ => firesOne_file _ _ _)
  | makeDir path => exact firesOne_withPath m _ (firesOne_edited m _ fun _ => firesOne_file _ _ _)
  | copy source target =>
    exact firesOne_withPath m _ (firesOne_edited m _ fun _ => firesOne_file _ _ _)
  | move source target =>
    refine firesOne_withPath m _ (firesOne_edited m _ fun landing => ?_)
    -- a move to the same place is not reported
    split
    · exact Or.inl rfl
    · exact firesOne_file _ _ _
  | missing => exact Or.inl rfl
  | reference inner => exact Or.inl rfl

theorem nests_perform {command : Command} {options : List CommandOption}
    (hat : At [] m (.action command options)) : Nests At (m.perform command options) where
  closed _ stack := by
    rcases firesOne_perform m command options with h | ⟨event, hevent, h⟩
    · rw [h]
      rfl
    · rw [h, openAfter_cons, mark_of_not_fold hevent]
      rfl
  fired before event after h hevent := by
    rcases firesOne_perform m command options with hnone | ⟨other, -, hone⟩
    · rw [hnone] at h
      simp at h
    · rw [hone] at h
      obtain ⟨rfl, hcons⟩ | ⟨rest, rfl, hnil⟩ := List.cons_eq_append_iff.1 h
      · cases hcons
        exact ⟨m, command, options, hat, hone⟩
      · simp at hnil
  stopped fault h := by
    have hkeep := allOrNothing_perform command options fault h
    rw [hkeep]
    exact ⟨_, hat, .action h⟩

/-- The same nodes, come to from further outside. -/
theorem Nests.mono {outcome : Outcome} (h : Nests At outcome)
    (hat : ∀ events m' node, At events m' node → At' events m' node) : Nests At' outcome where
  closed := h.closed
  fired before event after hevents hfold := by
    obtain ⟨m', command, options, hm', hevent⟩ := h.fired before event after hevents hfold
    exact ⟨m', command, options, hat _ _ _ hm', hevent⟩
  stopped fault hfault := by
    obtain ⟨node, hnode, hstuck⟩ := h.stopped fault hfault
    exact ⟨node, hat _ _ _ hnode, hstuck⟩

/-- **Runs in a row.** -/
theorem nests_andThen {first : Outcome} {next : Machine → Outcome} (hfirst : Nests At first)
    (hnext : first.fault? = none → Nests At' (next first.machine))
    (hat : ∀ events m' node, first.fault? = none → At' events m' node →
      At (first.events ++ events) m' node) : Nests At (first.andThen next) := by
  unfold Outcome.andThen
  split
  · exact hfirst
  next hdone =>
  have hsecond := hnext hdone
  refine ⟨fun h stack => ?_, fun before event after h hevent => ?_, fun fault h => ?_⟩
  · rw [openAfter_append, hfirst.closed hdone, Option.bind_some]
    exact hsecond.closed h stack
  · -- an event of the second run has all events of the first one before it
    obtain ⟨before', rfl, hin⟩ | ⟨after', hin, hafter⟩ := List.append_eq_append_iff.1 h
    · obtain ⟨m', command, options, hm', hfires⟩ := hsecond.fired before' event after hin hevent
      exact ⟨m', command, options, hat _ _ _ hdone hm', hfires⟩
    · obtain ⟨rfl, hsplit⟩ | ⟨rest, rfl, -⟩ := List.cons_eq_append_iff.1 hafter
      · -- the event is the first one of the second run
        rw [List.append_nil] at hin
        obtain ⟨m', command, options, hm', hfires⟩ := hsecond.fired [] event after hsplit hevent
        have hfirst := hat _ _ _ hdone hm'
        rw [List.append_nil, hin] at hfirst
        exact ⟨m', command, options, hfirst, hfires⟩
      · exact hfirst.fired before event rest hin hevent
  · obtain ⟨node, hnode, hstuck⟩ := hsecond.stopped fault h
    exact ⟨node, hat _ _ _ hdone hnode, hstuck⟩

/-- The events of a fold: those of its body after the mark of its start, and before the mark of its end
if the body went through. -/
theorem run_fold_events (m : Machine) (name : Bytes) (body : Statement) :
    (m.run (.fold name body)).events = .fold name true :: ((m.run body).events ++
      if (m.run body).fault? = none then [.fold name false] else []) := by
  cases h : (m.run body).fault? with
  | none => simp [run, Outcome.andThen, Outcome.done, h]
  | some fault => simp [run, Outcome.andThen, Outcome.done, h]

/-- An event that marks no fold is not one of the marks at the end. -/
theorem split_before_marks {body marks before after : List Event} {event : Event}
    (hmarks : ∀ mark ∈ marks, mark.isFold = true) (hevent : event.isFold = false)
    (h : body ++ marks = before ++ event :: after) : ∃ rest, body = before ++ event :: rest := by
  have hmem : event ∉ marks := by
    intro hmem
    rw [hmarks event hmem] at hevent
    cases hevent
  obtain ⟨between, -, hin⟩ | ⟨between, rfl, hafter⟩ := List.append_eq_append_iff.1 h
  · rw [hin] at hmem
    exact absurd (List.mem_append_right between List.mem_cons_self) hmem
  · obtain ⟨-, hin⟩ | ⟨rest, rfl, -⟩ := List.cons_eq_append_iff.1 hafter
    · rw [hin] at hmem
      exact absurd List.mem_cons_self hmem
    · exact ⟨rest, rfl⟩

/-- **A fold around its body.** -/
theorem nests_fold {name : Bytes} {body : Statement} (hbody : Nests At' (m.run body))
    (hat : ∀ events m' node, At' events m' node → At (.fold name true :: events) m' node) :
    Nests At (m.run (.fold name body)) := by
  obtain ⟨hmachine, hfault⟩ := run_fold m name body
  refine ⟨fun h stack => ?_, fun before event after h hevent => ?_, fun fault h => ?_⟩
  · rw [hfault] at h
    have hend : mark (name :: stack) (.fold name false) = some stack := mark_end_iff.2 rfl
    rw [run_fold_events, if_pos h, openAfter_cons, mark, Option.bind_some, openAfter_append,
      hbody.closed h, Option.bind_some, openAfter_cons, hend]
    rfl
  · rw [run_fold_events] at h
    obtain ⟨rfl, hcons⟩ | ⟨before', rfl, hin⟩ := List.cons_eq_append_iff.1 h
    · cases hcons
      cases hevent
    · have hmarks : ∀ mark ∈ if (m.run body).fault? = none then [.fold name false] else [],
          Event.isFold mark = true := by
        split <;> simp [isFold]
      obtain ⟨after', hsplit⟩ := split_before_marks hmarks hevent hin
      obtain ⟨m', command, options, hm', hfires⟩ := hbody.fired before' event after' hsplit hevent
      exact ⟨m', command, options, hat _ _ _ hm', hfires⟩
  · rw [hfault] at h
    rw [run_fold_events, h, hmachine, if_neg (Option.some_ne_none fault), List.append_nil]
    obtain ⟨node, hnode, hstuck⟩ := hbody.stopped fault h
    exact ⟨node, hat _ _ _ hnode, hstuck⟩

/-! ## Runs -/

mutual
/-- **Each event is fired by an action that the run comes to**, between marks that match, and all of them
by the time it comes to a node that cannot be done. -/
theorem nests_run (m : Machine) (s : Statement) :
    Nests (fun events m' node => ∃ place, ComesTo m s place events m' node) (m.run s) := by
  cases s with
  | missing => exact nests_nothing m
  | noop => exact nests_nothing m
  | sequence statements =>
    refine (nests_runAll m statements).mono ?_
    rintro events m' node ⟨i, place, h⟩
    exact ⟨i :: place, h⟩
  | fold name body =>
    refine nests_fold (nests_run m body) ?_
    rintro events m' node ⟨place, h⟩
    exact ⟨0 :: place, .fold h⟩
  | action command options => exact nests_perform ⟨[], .here m _⟩
  | branch condition yes no =>
    cases h : m.eval condition with
    | error fault =>
      simp only [run, h]
      exact nests_failed ⟨[], .here m _⟩ (.condition h)
    | ok value =>
      cases value with
      | true =>
        simp only [run, h]
        refine (nests_run m yes).mono ?_
        rintro events m' node ⟨place, hplace⟩
        exact ⟨0 :: place, .onTrue h hplace⟩
      | false =>
        simp only [run, h]
        refine (nests_run m no).mono ?_
        rintro events m' node ⟨place, hplace⟩
        exact ⟨1 :: place, .onFalse h hplace⟩
  | reference inner => exact nests_failed ⟨[], .here m _⟩ (.reference inner)
/-- The same for statements in a row, of which each has its number. -/
theorem nests_runAll (m : Machine) (statements : List Statement) :
    Nests (fun events m' node => ∃ i place, ComesTo m (.sequence statements) (i :: place) events m' node)
      (m.runAll statements) := by
  cases statements with
  | nil => exact nests_nothing m
  | cons first rest =>
    have hhead : Nests (fun events m' node => ∃ i place,
        ComesTo m (.sequence (first :: rest)) (i :: place) events m' node) (m.run first) := by
      refine (nests_run m first).mono ?_
      rintro events m' node ⟨place, h⟩
      exact ⟨0, place, .head h⟩
    refine nests_andThen hhead (fun _ => nests_runAll (m.run first).machine rest) ?_
    rintro events m' node done ⟨i, place, h⟩
    exact ⟨i + 1, place, .tail done h⟩
end

/-- **The folds that are open when a run comes to a place are those around the place.** -/
theorem ComesTo.openAfter (h : ComesTo m s place events m' node) (stack : List Bytes) :
    openAfter stack events = some ((s.foldsAround place).reverse ++ stack) := by
  induction h generalizing stack with
  | here m s => rfl
  | head h ih => exact ih stack
  | tail done h ih =>
    -- the statements before went through, so their marks leave the stack as it was
    rw [openAfter_append, (nests_run _ _).closed done, Option.bind_some]
    exact ih stack
  | @fold m m' name body node place events h ih =>
    rw [openAfter_cons, mark, Option.bind_some, ih]
    simp [Statement.foldsAround, Statement.foldName?, Statement.child?]
  | onTrue value h ih => exact ih stack
  | onFalse value h ih => exact ih stack

/-- **The folds of a run are well nested.** If a run goes through, the marks of its folds match like
brackets, with the same name at both ends. If it fails, all its events have been fired by the time it comes
to the node that cannot be done. The folds that are then open, from the outermost to the innermost, are
those around that node, and ends for them would make all marks match. Every other event is fired by an
action, and the folds that are open just before it are those around the action. -/
theorem fold_events_nested (m : Machine) (s : Statement) :
    ((m.run s).fault? = none → Balanced (m.run s).events) ∧
    (∀ fault, (m.run s).fault? = some fault → ∃ place node,
      s.at? place = some node ∧ Stuck (m.run s).machine node fault ∧
      ComesTo m s place (m.run s).events (m.run s).machine node ∧
      openAfter [] (m.run s).events = some (s.foldsAround place).reverse ∧
      Balanced ((m.run s).events ++ (s.foldsAround place).reverse.map fun name => .fold name false)) ∧
    ∀ before event after, (m.run s).events = before ++ event :: after → event.isFold = false →
      ∃ place m' command options, s.at? place = some (.action command options) ∧
        ComesTo m s place before m' (.action command options) ∧
        (m'.perform command options).events = [event] ∧
        openAfter [] before = some (s.foldsAround place).reverse := by
  have hrun := nests_run m s
  refine ⟨fun h => balanced_iff.2 (hrun.closed h []), fun fault h => ?_, fun before event after h hevent => ?_⟩
  · obtain ⟨node, ⟨place, hplace⟩, hstuck⟩ := hrun.stopped fault h
    have hopen := hplace.openAfter []
    rw [List.append_nil] at hopen
    refine ⟨place, node, hplace.at?, hstuck, hplace, hopen, balanced_iff.2 ?_⟩
    rw [openAfter_append, hopen, Option.bind_some]
    exact openAfter_ends _
  · obtain ⟨m', command, options, ⟨place, hplace⟩, hfires⟩ := hrun.fired before event after h hevent
    have hopen := hplace.openAfter []
    rw [List.append_nil] at hopen
    exact ⟨place, m', command, options, hplace.at?, hplace, hfires, hopen⟩

/-- A script with a fold that is left again, and a move of nothing two folds deep. -/
def folded : Statement :=
  .fold (bytes "outer") (.sequence [
    .fold (bytes "first") (.action (.raw (bytes "make")) []),
    .branch (.isDirectory home)
      (.fold (bytes "inner") (.sequence [
        .action (.setEnv (bytes "K") (bytes "v")) [],
        .action (.move (bytes "x") (bytes "y")) []]))
      .noop,
    .action .newline []])

/-- The move fails with two folds open; the variable was set inside both of them. -/
theorem fold_events_nested_sample :
    (zero.run (.fold (bytes "f") .noop)).fault? = none ∧
    Balanced (zero.run (.fold (bytes "f") .noop)).events ∧
    (fresh.run folded).fault? = some (.file (.notFound (bytes "/home/travis/x"))) ∧
    (fresh.run folded).events = [
      .fold (bytes "outer") true,
      .fold (bytes "first") true,
      .command (bytes "make") false false [],
      .fold (bytes "first") false,
      .fold (bytes "inner") true,
      .env (bytes "K") (bytes "v")] ∧
    openAfter [] (fresh.run folded).events = some [bytes "inner", bytes "outer"] ∧
    (∃ place node, folded.at? place = some node ∧
      ComesTo fresh folded place (fresh.run folded).events (fresh.run folded).machine node ∧
      folded.foldsAround place = [bytes "outer", bytes "inner"]) ∧
    ∃ (place : List Nat) (m' : Machine) (command : Command) (options : List CommandOption),
      folded.at? place = some (.action command options) ∧
      (m'.perform command options).events = [.env (bytes "K") (bytes "v")] ∧
      folded.foldsAround place = [bytes "outer", bytes "inner"] := by
  have hfault : (fresh.run folded).fault? = some (.file (.notFound (bytes "/home/travis/x"))) := by
    decide +kernel
  have hevents : (fresh.run folded).events = [
      .fold (bytes "outer") true, .fold (bytes "first") true, .command (bytes "make") false false [],
      .fold (bytes "first") false, .fold (bytes "inner") true, .env (bytes "K") (bytes "v")] := by
    decide +kernel
  have hnames : openAfter [] (fresh.run folded).events = some [bytes "inner", bytes "outer"] := by
    rw [hevents]
    decide
  have hreverse {names : List Bytes} (h : some [bytes "inner", bytes "outer"] = some names.reverse) :
      names = [bytes "outer", bytes "inner"] :=
    (List.reverse_eq_iff.1 (Option.some.inj h).symm)
  obtain ⟨-, hstopped, hfired⟩ := fold_events_nested fresh folded
  obtain ⟨place, node, hat, -, hcomes, hopen, -⟩ := hstopped _ hfault
  obtain ⟨other, m', command, options, hother, -, hfires, hbefore⟩ :=
    hfired [_, _, _, _, _] _ [] hevents rfl
  exact ⟨rfl, (fold_events_nested zero _).1 rfl, hfault, hevents, hnames,
    ⟨place, node, hat, hcomes, hreverse (hnames.symm.trans hopen)⟩,
    other, m', command, options, hother, hfires, hreverse hbefore⟩

end Machine

end BuildScript
