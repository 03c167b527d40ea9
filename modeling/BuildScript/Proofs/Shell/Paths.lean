import BuildScript.Shell.Render
import BuildScript.Proofs.Text.PathText

/-!
# What the text of a script hinges on

In a tree without empty places and references, and with names on its folds that can be written, only
a path can be in the way of a text. Every path of the tree is looked at, whichever branch it is in.

* `Statement.paths`: the paths of a statement.
* `Statement.isComplete`: no empty places, no references, and only good names for folds.
* `Shell.HingesOn`: a result that is there exactly if some paths can be written.
* `Shell.hingesOn_render`: **the text of a complete statement hinges on its paths.**
-/

namespace BuildScript

/-- The paths of a command. -/
def Command.paths : Command → List Bytes
  | changeDir path | writeFile path _ | makeDir path | remove path => [path]
  | copy source target | move source target => [source, target]
  | missing | raw _ | echo _ | newline | setEnv _ _ | reference _ => []

/-- Whether there is a command. -/
def Command.isComplete : Command → Bool
  | missing | reference _ => false
  | _ => true

/-- The paths of a condition. -/
def Condition.paths : Condition → List Bytes
  | present path | isDirectory path | isFile path => [path]
  | succeeds command => command.paths
  | .and left right | .or left right => left.paths ++ right.paths
  | .not inner => inner.paths
  | missing | reference _ => []

/-- Whether a condition has no empty places and no references. -/
def Condition.isComplete : Condition → Bool
  | present _ | isDirectory _ | isFile _ => true
  | succeeds command => command.isComplete
  | .and left right | .or left right => left.isComplete && right.isComplete
  | .not inner => inner.isComplete
  | missing | reference _ => false

namespace Statement

mutual
/-- The paths of a statement. -/
def paths : Statement → List Bytes
  | missing | noop | reference _ => []
  | sequence statements => pathsEach statements
  | fold _ body => body.paths
  | action command _ => command.paths
  | branch condition onTrue onFalse => condition.paths ++ (onTrue.paths ++ onFalse.paths)
/-- The paths of statements in a row. -/
def pathsEach : List Statement → List Bytes
  | [] => []
  | statement :: rest => statement.paths ++ pathsEach rest
end

mutual
/-- Whether nothing but a path can be in the way of a text. -/
def isComplete : Statement → Bool
  | missing | noop => true
  | sequence statements => areComplete statements
  | fold name body => FoldName.check name = .ok () && body.isComplete
  | action command _ => command.isComplete
  | branch condition onTrue onFalse =>
    condition.isComplete && (onTrue.isComplete && onFalse.isComplete)
  | reference _ => false
/-- The same for statements in a row. -/
def areComplete : List Statement → Bool
  | [] => true
  | statement :: rest => statement.isComplete && areComplete rest
end

theorem paths_of_isNoop {s : Statement} (h : s.isNoop = true) : s.paths = [] := by
  rcases eq_of_isNoop h with rfl | rfl <;> rfl

theorem isComplete_of_isNoop {s : Statement} (h : s.isNoop = true) : s.isComplete = true := by
  rcases eq_of_isNoop h with rfl | rfl <;> rfl

end Statement

namespace Shell

/-- A result that is there if some paths can be written, and otherwise is missing because of a path. -/
inductive HingesOn {α : Type} (paths : List Bytes) (result : Except Fault α) : Prop where
  | written (a : α) (htext : paths.all isPathText = true) (h : result = .ok a)
  | refused (cause : PathFault) (htext : paths.all isPathText = false)
      (h : result = .error (.path cause))

variable {α β : Type} {ps qs : List Bytes}

theorem hingesOn_pure (a : α) : HingesOn [] (pure a) := .written a rfl rfl

theorem hingesOn_pathWord (operation path : Bytes) : HingesOn [path] (pathWord operation path) := by
  unfold pathWord checkPath
  by_cases h : isPathText path = true
  · rw [if_pos h]
    exact .written _ (by simp [h]) rfl
  · rw [if_neg h]
    exact .refused _ (by simp [h]) rfl

/-- One thing after the other hinges on the paths of both. -/
theorem HingesOn.bind {x : Except Fault α} {f : α → Except Fault β} (hx : HingesOn ps x)
    (hf : ∀ a, HingesOn qs (f a)) : HingesOn (ps ++ qs) (x >>= f) := by
  cases hx with
  | refused cause htext h =>
    rw [h]
    exact .refused cause (by rw [List.all_append, htext, Bool.false_and]) rfl
  | written a htext h =>
    rw [h]
    cases hf a with
    | written b htext' h' =>
      exact .written b (by rw [List.all_append, htext, htext', Bool.and_self]) h'
    | refused cause htext' h' =>
      exact .refused cause (by rw [List.all_append, htext', Bool.and_false]) h'

theorem HingesOn.map {x : Except Fault α} (hx : HingesOn ps x) (f : α → β) :
    HingesOn ps (x >>= fun a => pure (f a)) := by
  have h := hx.bind fun a => hingesOn_pure (f a)
  rwa [List.append_nil] at h

theorem HingesOn.map₂ {x y : Except Fault α} (hx : HingesOn ps x) (hy : HingesOn qs y)
    (f : α → α → β) : HingesOn (ps ++ qs) (x >>= fun a => y >>= fun b => pure (f a b)) :=
  hx.bind fun a => hy.map (f a)

theorem hingesOn_command {command : Command} (h : command.isComplete = true) :
    HingesOn command.paths command.render := by
  cases command with
  | raw text => exact hingesOn_pure _
  | echo text => exact hingesOn_pure _
  | newline => exact hingesOn_pure _
  | setEnv key value => exact hingesOn_pure _
  | changeDir path => exact (hingesOn_pathWord _ path).map _
  | writeFile path data => exact (hingesOn_pathWord _ path).map _
  | makeDir path => exact (hingesOn_pathWord _ path).map _
  | remove path => exact (hingesOn_pathWord _ path).map _
  | copy source target => exact (hingesOn_pathWord _ source).map₂ (hingesOn_pathWord _ target) _
  | move source target => exact (hingesOn_pathWord _ source).map₂ (hingesOn_pathWord _ target) _
  | missing => cases h
  | reference inner => cases h

theorem hingesOn_condition {condition : Condition} (h : condition.isComplete = true) :
    HingesOn condition.paths condition.render := by
  induction condition with
  | present path => exact (hingesOn_pathWord _ path).map _
  | isDirectory path => exact (hingesOn_pathWord _ path).map _
  | isFile path => exact (hingesOn_pathWord _ path).map _
  | succeeds command => exact hingesOn_command h
  | and left right ihl ihr =>
    obtain ⟨hl, hr⟩ := Bool.and_eq_true_iff.1 h
    exact (ihl hl).map₂ (ihr hr) _
  | or left right ihl ihr =>
    obtain ⟨hl, hr⟩ := Bool.and_eq_true_iff.1 h
    exact (ihl hl).map₂ (ihr hr) _
  | not inner ih => exact (ih h).map _
  | missing => cases h
  | reference inner => cases h

mutual
/-- **The text of a complete statement hinges on its paths.** -/
theorem hingesOn_render (s : Statement) (h : s.isComplete = true) : HingesOn s.paths s.render := by
  match s with
  | .missing => exact hingesOn_pure _
  | .noop => exact hingesOn_pure _
  | .sequence statements =>
    rw [Statement.isComplete] at h
    rw [Statement.paths, Statement.render]
    exact (hingesOn_renderEach statements h).map _
  | .fold name body =>
    rw [Statement.isComplete, Bool.and_eq_true, decide_eq_true_eq] at h
    rw [Statement.paths, Statement.render, h.1]
    exact (hingesOn_render body h.2).map _
  | .action command options =>
    rw [Statement.isComplete] at h
    rw [Statement.paths, Statement.render]
    exact (hingesOn_command h).map _
  | .branch condition onTrue onFalse =>
    rw [Statement.isComplete, Bool.and_eq_true, Bool.and_eq_true] at h
    obtain ⟨hc, ht, hf⟩ := h
    rw [Statement.paths, Statement.render]
    refine (hingesOn_condition hc).bind fun c => (hingesOn_render onTrue ht).bind fun t => ?_
    -- a branch without an alternative has no path there either
    split
    · next hnoop =>
      rw [Statement.paths_of_isNoop hnoop]
      exact hingesOn_pure _
    · exact (hingesOn_render onFalse hf).map _
  | .reference statement => cases h
/-- The texts of statements in a row hinge on the paths of all of them. -/
theorem hingesOn_renderEach (statements : List Statement)
    (h : Statement.areComplete statements = true) :
    HingesOn (Statement.pathsEach statements) (Statement.renderEach statements) := by
  match statements with
  | [] => exact hingesOn_pure _
  | statement :: rest =>
    rw [Statement.areComplete, Bool.and_eq_true] at h
    rw [Statement.pathsEach, Statement.renderEach]
    split
    · next hnoop =>
      rw [Statement.paths_of_isNoop hnoop, List.nil_append]
      exact hingesOn_renderEach rest h.2
    · exact (hingesOn_render statement h.1).bind fun text => (hingesOn_renderEach rest h.2).map _
end

end Shell

end BuildScript
