import BuildScript.Proofs.Machine.Execution
import BuildScript.Proofs.Shell.Nesting

/-!
# What has a shell text can be run

Writing a script looks at every node of its tree, running it looks only at those that it comes to. So
a tree that has a shell text has been checked for the run as well.

* `Agrees`, `agrees_perform`: a command has no text for the same reason for which it cannot be run.
* `eval_fault`: a condition that has a text has no value only because of a command in it.
* `Fails.of_accepted`: **a run of a statement that has a text fails only in the files**, or at a
  condition that runs a command.
-/

namespace BuildScript

/-- A statement has a shell text. -/
def Statement.Accepted (s : Statement) : Prop := ∃ text, s.render = .ok text

namespace Statement

theorem accepted_of_isNoop {s : Statement} (h : s.isNoop = true) : s.Accepted := by
  cases s with
  | missing => exact ⟨[], rfl⟩
  | noop => exact ⟨[], rfl⟩
  | _ => cases h

/-- A sequence has a text only if its statements have, those included that are left out of it. -/
theorem Accepted.cons {s : Statement} {rest : List Statement}
    (h : (Statement.sequence (s :: rest)).Accepted) :
    s.Accepted ∧ (Statement.sequence rest).Accepted := by
  obtain ⟨text, h⟩ := h
  rw [render] at h
  obtain ⟨parts, hparts, -⟩ := Shell.bind_ok h
  rw [renderEach] at hparts
  split at hparts
  · next hnoop =>
    exact ⟨accepted_of_isNoop hnoop, _, by rw [render, hparts]; rfl⟩
  · obtain ⟨first, hfirst, hparts⟩ := Shell.bind_ok hparts
    obtain ⟨texts, htexts, -⟩ := Shell.bind_ok hparts
    exact ⟨⟨first, hfirst⟩, _, by rw [render, htexts]; rfl⟩

theorem Accepted.fold {name : Bytes} {body : Statement} (h : (Statement.fold name body).Accepted) :
    body.Accepted := by
  obtain ⟨text, h⟩ := h
  rw [render] at h
  split at h
  · cases h
  · obtain ⟨inner, hinner, -⟩ := Shell.bind_ok h
    exact ⟨inner, hinner⟩

theorem Accepted.branch {condition : Condition} {yes no : Statement}
    (h : (Statement.branch condition yes no).Accepted) :
    (∃ text, condition.render = .ok text) ∧ yes.Accepted ∧ no.Accepted := by
  obtain ⟨text, h⟩ := h
  rw [render] at h
  obtain ⟨c, hc, h⟩ := Shell.bind_ok h
  obtain ⟨t, ht, h⟩ := Shell.bind_ok h
  refine ⟨⟨c, hc⟩, ⟨t, ht⟩, ?_⟩
  split at h
  · next hnoop => exact accepted_of_isNoop hnoop
  · obtain ⟨f, hf, -⟩ := Shell.bind_ok h
    exact ⟨f, hf⟩

theorem Accepted.action {command : Command} {options : List CommandOption}
    (h : (Statement.action command options).Accepted) : ∃ text, command.render = .ok text := by
  obtain ⟨line, h⟩ := h
  obtain ⟨text, htext, -⟩ := Shell.bind_ok h
  exact ⟨text, htext⟩

theorem not_accepted_reference (s : Statement) : ¬ (Statement.reference s).Accepted := by
  rintro ⟨text, h⟩
  cases h

end Statement

namespace Machine

variable {m m' : Machine}

/-! ## Commands -/

/-- How the text of a command goes together with the fault of its run: a command with a text fails at
most in the files, and one without a text fails for the reason for which it has none. -/
inductive Agrees : Except Shell.Fault Bytes → Option RunFault → Prop where
  | written (text : Bytes) (cause? : Option FileFault) : Agrees (.ok text) (cause?.map .file)
  | path (cause : PathFault) : Agrees (.error (.path cause)) (some (.path cause))
  | unknown (typeName : Bytes) :
      Agrees (.error (.unknownNode .command typeName)) (some (.command typeName))

/-- A command with one path. -/
theorem agrees_path {operation path : Bytes} {text : Bytes → Bytes} {next : Unit → Outcome}
    (cause? : Option FileFault) (h : (next ()).fault? = cause?.map .file) :
    Agrees (do let word ← Shell.pathWord operation path; return text word)
      (m.withPath (checkPath operation path) next).fault? := by
  unfold Shell.pathWord withPath
  cases checkPath operation path with
  | ok value =>
    rw [h]
    exact .written _ _
  | error cause => exact .path cause

/-- A command with two paths: the first one is looked at first, in the text as in the run. -/
theorem agrees_paths {operation source target : Bytes} {text : Bytes → Bytes → Bytes}
    {next : Unit → Outcome} (cause? : Option FileFault) (h : (next ()).fault? = cause?.map .file) :
    Agrees (do
        let first ← Shell.pathWord operation source
        let second ← Shell.pathWord operation target
        return text first second)
      (m.withPath (checkPaths operation source target) next).fault? := by
  unfold checkPaths
  cases hsource : checkPath operation source with
  | ok value =>
    have hword : Shell.pathWord operation source = .ok (Word.escape source) := by
      simp only [Shell.pathWord, hsource]
    rw [hword]
    exact agrees_path cause? h
  | error cause =>
    have hword : Shell.pathWord operation source = .error (.path cause) := by
      simp only [Shell.pathWord, hsource]
    rw [hword]
    exact .path cause

/-- **A command has no text for the same reason for which it cannot be run.** -/
theorem agrees_perform (m : Machine) (command : Command) (options : List CommandOption) :
    Agrees command.render (m.perform command options).fault? := by
  cases command with
  | raw text => exact .written _ none
  | echo text => exact .written _ none
  | newline => exact .written _ none
  | setEnv key value => exact .written _ none
  | changeDir path => exact agrees_path none rfl
  | remove path => exact agrees_path none rfl
  | writeFile path data => exact agrees_path _ rfl
  | makeDir path => exact agrees_path _ rfl
  | copy source target => exact agrees_paths _ rfl
  | move source target => exact agrees_paths _ rfl
  | missing => exact .unknown _
  | reference inner => exact .unknown _

/-! ## Conditions -/

theorem bind_error {α β : Type} {x : Except RunFault α} {f : α → Except RunFault β} {fault : RunFault}
    (h : (x >>= f) = .error fault) : x = .error fault ∨ ∃ a, x = .ok a ∧ f a = .error fault := by
  cases x with
  | error other =>
    cases h
    exact Or.inl rfl
  | ok a => exact Or.inr ⟨a, rfl, h⟩

theorem evalPath_of_test {flag path text : Bytes} (h : Shell.test flag path = .ok text)
    (value : Bytes → Bool) : evalPath flag path value = .ok (value path) := by
  obtain ⟨word, hword, -⟩ := Shell.bind_ok h
  unfold Shell.pathWord at hword
  unfold evalPath
  cases hcheck : checkPath (bytes "test " ++ flag) path with
  | ok value => rfl
  | error cause =>
    rw [hcheck] at hword
    cases hword

/-- The two sides of a connective have no value if one of them has none. -/
theorem eval_both {left right : Condition} {f : Bool → Bool → Bool} {fault : RunFault}
    (h : (do let l ← m.eval left; let r ← m.eval right; return f l r) = .error fault) :
    m.eval left = .error fault ∨ m.eval right = .error fault := by
  rcases bind_error h with hl | ⟨l, -, h⟩
  · exact Or.inl hl
  rcases bind_error h with hr | ⟨r, -, h⟩
  · exact Or.inr hr
  · cases h

/-- **A condition that has a text has no value only because of a command in it.** -/
theorem eval_fault {condition : Condition} {text : Bytes} {fault : RunFault}
    (hrender : condition.render = .ok text) (h : m.eval condition = .error fault) :
    (∃ what, fault = .condition what) ∧ condition.runsNothing = false := by
  induction condition generalizing text with
  | missing => cases hrender
  | reference inner => cases hrender
  | present path =>
    rw [eval, evalPath_of_test hrender] at h
    cases h
  | isDirectory path =>
    rw [eval, evalPath_of_test hrender] at h
    cases h
  | isFile path =>
    rw [eval, evalPath_of_test hrender] at h
    cases h
  | succeeds command =>
    cases h
    exact ⟨⟨_, rfl⟩, rfl⟩
  | and left right ihl ihr =>
    obtain ⟨l, hl, hrender⟩ := Shell.bind_ok hrender
    obtain ⟨r, hr, -⟩ := Shell.bind_ok hrender
    rcases eval_both h with h | h
    · obtain ⟨hwhat, hruns⟩ := ihl hl h
      exact ⟨hwhat, by rw [Condition.runsNothing, hruns, Bool.false_and]⟩
    · obtain ⟨hwhat, hruns⟩ := ihr hr h
      exact ⟨hwhat, by rw [Condition.runsNothing, hruns, Bool.and_false]⟩
  | or left right ihl ihr =>
    obtain ⟨l, hl, hrender⟩ := Shell.bind_ok hrender
    obtain ⟨r, hr, -⟩ := Shell.bind_ok hrender
    rcases eval_both h with h | h
    · obtain ⟨hwhat, hruns⟩ := ihl hl h
      exact ⟨hwhat, by rw [Condition.runsNothing, hruns, Bool.false_and]⟩
    · obtain ⟨hwhat, hruns⟩ := ihr hr h
      exact ⟨hwhat, by rw [Condition.runsNothing, hruns, Bool.and_false]⟩
  | not inner ih =>
    obtain ⟨t, ht, -⟩ := Shell.bind_ok hrender
    rcases bind_error h with h | ⟨value, -, h⟩
    · exact ih ht h
    · cases h

/-! ## Statements -/

/-- A fault that a statement with a text can still run into: one of the files, or one at a condition
that runs a command. -/
def Remaining (s : Statement) (fault : RunFault) : Prop :=
  (∃ cause, fault = .file cause) ∨
    ((∃ what, fault = .condition what) ∧ s.conditionsRunNothing = false)

/-- What remains for a part of a statement remains for the statement. -/
theorem Remaining.of_part {part whole : Statement} {fault : RunFault} (h : Remaining part fault)
    (hpart : whole.conditionsRunNothing = true → part.conditionsRunNothing = true) :
    Remaining whole fault := by
  rcases h with hfile | ⟨hwhat, hruns⟩
  · exact Or.inl hfile
  · refine Or.inr ⟨hwhat, ?_⟩
    by_contra hwhole
    rw [hpart (by simpa using hwhole)] at hruns
    cases hruns

/-- **A path to a fault in a statement that has a text** ends in the files, or at a condition that runs
a command. -/
theorem Fails.of_accepted {s : Statement} {actions : List Action} {fault : RunFault}
    (h : Fails m s actions m' fault) (ha : s.Accepted) : Remaining s fault := by
  induction h with
  | @action m command options fault hfault =>
    obtain ⟨text, htext⟩ := ha.action
    have hagrees := agrees_perform m command options
    rw [htext, hfault] at hagrees
    generalize hsome : some fault = fault? at hagrees
    cases hagrees with
    | written text cause? =>
      obtain ⟨cause, -, hcause⟩ := Option.map_eq_some_iff.1 hsome.symm
      exact Or.inl ⟨cause, hcause.symm⟩
  | condition hfault =>
    obtain ⟨⟨text, htext⟩, -, -⟩ := ha.branch
    obtain ⟨hwhat, hruns⟩ := eval_fault htext hfault
    refine Or.inr ⟨hwhat, ?_⟩
    simp [Statement.conditionsRunNothing, Statement.everywhere, Statement.branchRunsNothing, hruns]
  | reference m statement => exact absurd ha (Statement.not_accepted_reference statement)
  | head h ih =>
    refine (ih ha.cons.1).of_part ?_
    simp only [Statement.conditionsRunNothing, Statement.everywhere, Statement.everywhereEach,
      Bool.and_eq_true]
    exact fun h => h.2.1
  | tail head h ih =>
    refine (ih ha.cons.2).of_part ?_
    simp only [Statement.conditionsRunNothing, Statement.everywhere, Statement.everywhereEach,
      Bool.and_eq_true]
    exact fun h => ⟨rfl, h.2.2⟩
  | fold h ih =>
    refine (ih ha.fold).of_part ?_
    simp only [Statement.conditionsRunNothing, Statement.everywhere, Bool.and_eq_true]
    exact fun h => h.2
  | onTrue value h ih =>
    refine (ih ha.branch.2.1).of_part ?_
    simp only [Statement.conditionsRunNothing, Statement.everywhere, Bool.and_eq_true]
    exact fun h => h.1.2
  | onFalse value h ih =>
    refine (ih ha.branch.2.2).of_part ?_
    simp only [Statement.conditionsRunNothing, Statement.everywhere, Bool.and_eq_true]
    exact fun h => h.2

/-- **Writing a script checks it for every run.** On every machine a statement that has a shell text
fails only in the files, or at a condition when it has one that runs a command. And a single command
has no text because of a path exactly if it cannot be run because of the same path, and has no text
as an unknown node exactly if it cannot be run as one. -/
theorem accepted_run_fails_in_files :
    (∀ (s : Statement) (text : Bytes), s.render = .ok text →
      ∀ (m : Machine) (fault : RunFault), (m.run s).fault? = some fault →
        (∃ cause : FileFault, fault = .file cause) ∨
          ((∃ what, fault = .condition what) ∧ s.conditionsRunNothing = false)) ∧
    ∀ (m : Machine) (command : Command) (options : List CommandOption),
      (∀ cause : PathFault, command.render = .error (.path cause) ↔
        (m.perform command options).fault? = some (.path cause)) ∧
      (∀ family typeName, command.render = .error (.unknownNode family typeName) ↔
        family = .command ∧ (m.perform command options).fault? = some (.command typeName)) := by
  constructor
  · intro s text hrender m fault hfault
    obtain ⟨completed, hpath⟩ := fails_iff.1 ⟨rfl, hfault⟩
    exact hpath.of_accepted ⟨text, hrender⟩
  · intro m command options
    have hagrees := agrees_perform m command options
    generalize command.render = rendered at hagrees ⊢
    generalize (m.perform command options).fault? = fault? at hagrees ⊢
    cases hagrees with
    | written text cause? => cases cause? <;> simp
    | path cause => simp
    | unknown typeName => simp [eq_comm]

/-- A script that changes nothing before it moves what is not there. -/
def strayMove : Statement :=
  .branch (.not (.isDirectory (bytes "it's"))) (.action (.move (bytes "a b") (bytes "c")) []) .missing

/-- A script that asks whether a command succeeds. -/
def probing : Statement := .branch (.succeeds .newline) .noop .noop

/-- Both kinds of faults that remain, and a copy between two paths that cannot be written. -/
theorem accepted_run_fails_in_files_sample :
    strayMove.conditionsRunNothing = true ∧
    (fresh.run strayMove).fault? = some (.file (.notFound (bytes "/home/travis/a b"))) ∧
    (∃ cause : FileFault, RunFault.file (.notFound (bytes "/home/travis/a b")) = .file cause) ∧
    probing.conditionsRunNothing = false ∧
    (fresh.perform (.copy [0] [255]) []).fault? = some (.path ⟨bytes "cp", [0]⟩) := by
  have hstray : (fresh.run strayMove).fault? =
      some (.file (.notFound (bytes "/home/travis/a b"))) := by decide +kernel
  have hprobing : (fresh.run probing).fault? =
      some (.condition (bytes "command ast.Newline\x7b\x7d")) := by decide +kernel
  obtain ⟨hrun, hcommand⟩ := accepted_run_fails_in_files
  refine ⟨by decide, hstray, ?_, ?_, ?_⟩
  · rcases hrun strayMove _ rfl fresh _ hstray with h | ⟨⟨what, h⟩, -⟩
    · exact h
    · cases h
  · rcases hrun probing _ rfl fresh _ hprobing with ⟨cause, h⟩ | ⟨-, h⟩
    · cases h
    · exact h
  · exact ((hcommand fresh _ []).1 _).1 (by decide)

end Machine

end BuildScript
