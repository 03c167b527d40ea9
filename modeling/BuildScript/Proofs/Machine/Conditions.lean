import BuildScript.Machine.Run
import BuildScript.Shell.Render
import Mathlib.Data.List.Basic

/-!
# The value of a condition

A machine evaluates a condition and a script writes it, by two recursions of their own. Both look at all
leaves of the condition from left to right, whatever the values are, and both stop at the same leaf.

* `Condition.leaves`: the leaves of a condition; an empty place and a reference are leaves too.
* `Condition.Strict`, `Strict.faultOf_eq`: **a reading that looks at both sides of every connective fails
  with the fault of the leftmost leaf that has one.**
* `Strict.eq_error_iff`, `Strict.eq_ok_iff`: where such a reading stops, and when it goes through.
* `strict_eval`, `strict_render`: the two recursions read conditions in this way.
* `Condition.Holds`, `holds_of_eval`: the value is the truth value, by the connectives of logic.
* `eval_strict_and_classical`: all of this, and where the two stop.
-/

namespace BuildScript

/-- The fault of a result that has one. -/
def faultOf {ε α : Type} : Except ε α → Option ε
  | .ok _ => none
  | .error fault => some fault

section

variable {ε α β : Type} {fault : ε}

theorem faultOf_eq_some_iff {x : Except ε α} : faultOf x = some fault ↔ x = .error fault := by
  cases x <;> simp [faultOf]

theorem faultOf_eq_none_iff {x : Except ε α} : faultOf x = none ↔ ∃ a, x = .ok a := by
  cases x <;> simp [faultOf]

theorem exists_error_iff {x : Except ε α} : (∃ fault, x = .error fault) ↔ ¬ ∃ a, x = .ok a := by
  cases x <;> simp

theorem faultOf_map (x : Except ε α) (g : α → β) : faultOf (do return g (← x)) = faultOf x := by
  cases x <;> rfl

/-- The first of two results is looked at first. -/
theorem faultOf_both (x y : Except ε α) (g : α → α → β) :
    faultOf (do let a ← x; let b ← y; return g a b) = (faultOf x).or (faultOf y) := by
  cases x <;> cases y <;> rfl

theorem map_eq_ok {x : Except ε α} {g : α → β} {b : β} (h : (do return g (← x)) = Except.ok b) :
    ∃ a, x = .ok a ∧ g a = b := by
  cases x with
  | error fault => cases h
  | ok a => exact ⟨a, rfl, Except.ok.inj h⟩

theorem both_eq_ok {x y : Except ε α} {g : α → α → β} {c : β}
    (h : (do let a ← x; let b ← y; return g a b) = Except.ok c) :
    ∃ a b, x = .ok a ∧ y = .ok b ∧ g a b = c := by
  cases x with
  | error fault => cases h
  | ok a =>
    obtain ⟨b, hb, hc⟩ := map_eq_ok h
    exact ⟨a, b, rfl, hb, hc⟩

end

namespace Condition

/-- Whether a condition is no connective. -/
def isLeaf : Condition → Bool
  | .and _ _ | .or _ _ | .not _ => false
  | missing | present _ | isDirectory _ | isFile _ | succeeds _ | reference _ => true

/-- The leaves of a condition, from left to right. What a reference refers to is not looked at. -/
def leaves : Condition → List Condition
  | .and left right | .or left right => left.leaves ++ right.leaves
  | .not inner => inner.leaves
  | missing => [missing]
  | present path => [present path]
  | isDirectory path => [isDirectory path]
  | isFile path => [isFile path]
  | succeeds command => [succeeds command]
  | reference condition => [reference condition]

/-- Whether a leaf tests a path that can be written into a script. -/
def isPathTest : Condition → Bool
  | present path | isDirectory path | isFile path => isPathText path
  | _ => false

/-- The leftmost leaf of a condition that is not the test of a good path, with the leaves before it. -/
structure StopsAt (c : Condition) (before : List Condition) (leaf : Condition) : Prop where
  leaves : ∃ after, c.leaves = before ++ leaf :: after
  before : before.all isPathTest = true
  leaf : leaf.isPathTest = false

/-- The fault of a test of a path, if the path cannot be written. -/
def pathFault? (flag path : Bytes) : Option PathFault := faultOf (checkPath (bytes "test " ++ flag) path)

/-- Why a leaf has no value, on any machine. -/
def evalFault? : Condition → Option RunFault
  | present path => (pathFault? (bytes "-e") path).map .path
  | isDirectory path => (pathFault? (bytes "-d") path).map .path
  | isFile path => (pathFault? (bytes "-f") path).map .path
  | succeeds command => some (.condition (bytes "command " ++ command.dump))
  | leaf => some (.condition leaf.typeName)

/-- Why a leaf has no shell text. -/
def textFault? : Condition → Option Shell.Fault
  | present path => (pathFault? (bytes "-e") path).map .path
  | isDirectory path => (pathFault? (bytes "-d") path).map .path
  | isFile path => (pathFault? (bytes "-f") path).map .path
  | succeeds command => faultOf command.render
  | leaf => some (.unknownNode .condition leaf.typeName)

/-- The truth value of a condition on a machine. A leaf that tests no path is not true. -/
def Holds (m : Machine) : Condition → Prop
  | present path => m.hasEntry path = true
  | isDirectory path => m.hasDirectory path = true
  | isFile path => m.hasFile path = true
  | .and left right => left.Holds m ∧ right.Holds m
  | .or left right => left.Holds m ∨ right.Holds m
  | .not inner => ¬ inner.Holds m
  | missing | succeeds _ | reference _ => False

variable {ε α : Type} {c leaf : Condition}

theorem isLeaf_of_mem (h : leaf ∈ c.leaves) : leaf.isLeaf = true := by
  induction c with
  | and left right ihl ihr => exact (List.mem_append.1 h).elim ihl ihr
  | or left right ihl ihr => exact (List.mem_append.1 h).elim ihl ihr
  | not inner ih => exact ih h
  | _ =>
    obtain rfl := List.mem_singleton.1 h
    rfl

theorem pathFault?_eq_none_iff {flag path : Bytes} :
    pathFault? flag path = none ↔ isPathText path = true := by
  unfold pathFault? checkPath
  split <;> simp_all [faultOf]

theorem evalFault?_eq_none_iff (h : leaf.isLeaf = true) :
    leaf.evalFault? = none ↔ leaf.isPathTest = true := by
  cases leaf with
  | present path => exact Option.map_eq_none_iff.trans pathFault?_eq_none_iff
  | isDirectory path => exact Option.map_eq_none_iff.trans pathFault?_eq_none_iff
  | isFile path => exact Option.map_eq_none_iff.trans pathFault?_eq_none_iff
  | and left right => cases h
  | or left right => cases h
  | not inner => cases h
  | _ => simp [evalFault?, isPathTest]

/-- Unless it asks whether a command succeeds, a leaf has a text exactly if it has a value. -/
theorem textFault?_eq_none_iff (h : leaf.isLeaf = true) (hruns : ∀ command, leaf ≠ succeeds command) :
    leaf.textFault? = none ↔ leaf.isPathTest = true := by
  cases leaf with
  | present path => exact Option.map_eq_none_iff.trans pathFault?_eq_none_iff
  | isDirectory path => exact Option.map_eq_none_iff.trans pathFault?_eq_none_iff
  | isFile path => exact Option.map_eq_none_iff.trans pathFault?_eq_none_iff
  | succeeds command => exact absurd rfl (hruns command)
  | and left right => cases h
  | or left right => cases h
  | not inner => cases h
  | _ => simp [textFault?, isPathTest]

/-- A bad path is refused in the text as it is in the value. -/
theorem textFault?_path_iff {cause : PathFault} (hruns : ∀ command, leaf ≠ succeeds command) :
    leaf.textFault? = some (.path cause) ↔ leaf.evalFault? = some (.path cause) := by
  cases leaf with
  | succeeds command => exact absurd rfl (hruns command)
  | _ => simp [textFault?, evalFault?]

/-! ## Strict readings -/

/-- A reading of conditions that looks at both sides of a connective, the left one first, and at leaves
as a table says. -/
structure Strict (f : Condition → Except ε α) (fault? : Condition → Option ε) : Prop where
  leaf : ∀ c : Condition, c.isLeaf = true → faultOf (f c) = fault? c
  and : ∀ left right, faultOf (f (.and left right)) = (faultOf (f left)).or (faultOf (f right))
  or : ∀ left right, faultOf (f (.or left right)) = (faultOf (f left)).or (faultOf (f right))
  not : ∀ inner, faultOf (f (.not inner)) = faultOf (f inner)

/-- **A strict reading fails with the fault of the leftmost leaf that has one.** -/
theorem Strict.faultOf_eq {f : Condition → Except ε α} {fault? : Condition → Option ε}
    (h : Strict f fault?) (c : Condition) : faultOf (f c) = c.leaves.findSome? fault? := by
  induction c with
  | and left right ihl ihr => rw [h.and, ihl, ihr, leaves, List.findSome?_append]
  | or left right ihl ihr => rw [h.or, ihl, ihr, leaves, List.findSome?_append]
  | not inner ih => rw [h.not, ih, leaves]
  | _ => rw [h.leaf _ rfl, leaves, List.findSome?_singleton]

section

variable {f : Condition → Except ε α} {fault? : Condition → Option ε} {fault : ε}

/-- If exactly the leaves that test no good path have a fault, a strict reading stops at the leftmost one. -/
theorem Strict.eq_error_iff (h : Strict f fault?)
    (hleaf : ∀ leaf ∈ c.leaves, fault? leaf = none ↔ leaf.isPathTest = true) :
    f c = .error fault ↔ ∃ before leaf, c.StopsAt before leaf ∧ fault? leaf = some fault := by
  rw [← faultOf_eq_some_iff, h.faultOf_eq, List.findSome?_eq_some_iff]
  constructor
  · rintro ⟨before, leaf, after, hleaves, hfault, hbefore⟩
    -- the leaves before it have no fault, so they test good paths; the leaf itself has one
    rw [hleaves] at hleaf
    refine ⟨before, leaf, ⟨⟨after, hleaves⟩, ?_, ?_⟩, hfault⟩
    · exact List.all_eq_true.2 fun other hmem => (hleaf other (by simp [hmem])).1 (hbefore other hmem)
    · by_contra htest
      have hnone := (hleaf leaf (by simp)).2 (by simpa using htest)
      rw [hnone] at hfault
      cases hfault
  · rintro ⟨before, leaf, ⟨⟨after, hleaves⟩, hbefore, -⟩, hfault⟩
    rw [hleaves] at hleaf
    refine ⟨before, leaf, after, hleaves, hfault, fun other hmem => ?_⟩
    exact (hleaf other (by simp [hmem])).2 (List.all_eq_true.1 hbefore other hmem)

/-- A strict reading goes through if there is no such leaf. -/
theorem Strict.eq_ok_iff (h : Strict f fault?)
    (hleaf : ∀ leaf ∈ c.leaves, fault? leaf = none ↔ leaf.isPathTest = true) :
    (∃ a, f c = .ok a) ↔ c.leaves.all isPathTest = true := by
  rw [← faultOf_eq_none_iff, h.faultOf_eq, List.findSome?_eq_none_iff, List.all_eq_true]
  exact forall₂_congr hleaf

end

/-! ## Writing a condition -/

theorem faultOf_test (flag path : Bytes) :
    faultOf (Shell.test flag path) = (pathFault? flag path).map .path := by
  unfold Shell.test
  rw [faultOf_map]
  unfold Shell.pathWord pathFault?
  cases checkPath (bytes "test " ++ flag) path <;> rfl

theorem strict_render : Strict render textFault? where
  leaf c hleaf := by
    cases c with
    | present path => exact faultOf_test _ _
    | isDirectory path => exact faultOf_test _ _
    | isFile path => exact faultOf_test _ _
    | succeeds command => rfl
    | missing => rfl
    | reference inner => rfl
    | and left right => cases hleaf
    | or left right => cases hleaf
    | not inner => cases hleaf
  and left right := faultOf_both _ _ _
  or left right := faultOf_both _ _ _
  not inner := faultOf_map _ _

/-- No leaf of a condition asks whether a command succeeds. -/
def RunsNoCommand (c : Condition) : Prop := ∀ command, succeeds command ∉ c.leaves

theorem RunsNoCommand.ne (h : c.RunsNoCommand) (hmem : leaf ∈ c.leaves) (command : Command) :
    leaf ≠ succeeds command := by
  rintro rfl
  exact h command hmem

theorem RunsNoCommand.textFault? (h : c.RunsNoCommand) (leaf : Condition) (hmem : leaf ∈ c.leaves) :
    leaf.textFault? = none ↔ leaf.isPathTest = true :=
  textFault?_eq_none_iff (isLeaf_of_mem hmem) (h.ne hmem)

theorem render_eq_error_iff {fault : Shell.Fault} (h : c.RunsNoCommand) :
    c.render = .error fault ↔
      ∃ before leaf, c.StopsAt before leaf ∧ leaf.textFault? = some fault :=
  strict_render.eq_error_iff h.textFault?

theorem render_eq_ok_iff (h : c.RunsNoCommand) :
    (∃ text, c.render = .ok text) ↔ c.leaves.all isPathTest = true :=
  strict_render.eq_ok_iff h.textFault?

end Condition

namespace Machine

open Condition

variable {m : Machine} {c : Condition}

/-! ## Evaluating a condition -/

theorem faultOf_evalPath (flag path : Bytes) (value : Bytes → Bool) :
    faultOf (evalPath flag path value) = (pathFault? flag path).map .path := by
  unfold evalPath pathFault?
  cases checkPath (bytes "test " ++ flag) path <;> rfl

theorem strict_eval (m : Machine) : Strict m.eval evalFault? where
  leaf c hleaf := by
    cases c with
    | present path => exact faultOf_evalPath _ _ _
    | isDirectory path => exact faultOf_evalPath _ _ _
    | isFile path => exact faultOf_evalPath _ _ _
    | succeeds command => rfl
    | missing => rfl
    | reference inner => rfl
    | and left right => cases hleaf
    | or left right => cases hleaf
    | not inner => cases hleaf
  and left right := faultOf_both _ _ _
  or left right := faultOf_both _ _ _
  not inner := faultOf_map _ _

/-- A condition has the same fault on every machine. -/
theorem eval_eq_error_iff {fault : RunFault} :
    m.eval c = .error fault ↔
      ∃ before leaf, c.StopsAt before leaf ∧ leaf.evalFault? = some fault :=
  (strict_eval m).eq_error_iff fun _ hmem => evalFault?_eq_none_iff (isLeaf_of_mem hmem)

/-- **A condition has a value if all its leaves test good paths**, and only then. -/
theorem eval_eq_ok_iff : (∃ value, m.eval c = .ok value) ↔ c.leaves.all isPathTest = true :=
  (strict_eval m).eq_ok_iff fun _ hmem => evalFault?_eq_none_iff (isLeaf_of_mem hmem)

theorem evalPath_eq_ok {flag path : Bytes} {value : Bytes → Bool} {b : Bool}
    (h : evalPath flag path value = .ok b) : value path = b := by
  unfold evalPath at h
  split at h
  · exact Except.ok.inj h
  · cases h

/-- **The value of a condition is its truth value.** -/
theorem holds_of_eval {value : Bool} (h : m.eval c = .ok value) : value = true ↔ c.Holds m := by
  induction c generalizing value with
  | present path => rw [← evalPath_eq_ok h, Holds]
  | isDirectory path => rw [← evalPath_eq_ok h, Holds]
  | isFile path => rw [← evalPath_eq_ok h, Holds]
  | and left right ihl ihr =>
    obtain ⟨l, r, hl, hr, rfl⟩ := both_eq_ok h
    rw [Bool.and_eq_true, ihl hl, ihr hr, Holds]
  | or left right ihl ihr =>
    obtain ⟨l, r, hl, hr, rfl⟩ := both_eq_ok h
    rw [Bool.or_eq_true, ihl hl, ihr hr, Holds]
  | not inner ih =>
    obtain ⟨i, hi, rfl⟩ := map_eq_ok h
    rw [Holds, ← ih hi, Bool.not_eq_true', Bool.not_eq_true]
  | succeeds command => cases h
  | missing => cases h
  | reference inner => cases h

/-- **Conditions are strict and classical, and scripts refuse those that machines refuse.** Whether a
condition has a value does not hinge on the machine: it has one exactly if all its leaves, on both sides
of every connective, test paths that can be written. The value is then the truth value, and otherwise the
fault is that of the leftmost leaf that is not such a test. If no leaf runs a command, the condition has no
shell text exactly if it has no value, because of the same leaf, and of the same path if the path is bad. -/
theorem eval_strict_and_classical (c : Condition) :
    (∀ (m m' : Machine) (fault : RunFault), m.eval c = .error fault ↔ m'.eval c = .error fault) ∧
    (∀ m : Machine, (∃ value, m.eval c = .ok value) ↔ c.leaves.all isPathTest = true) ∧
    (∀ (m : Machine) (value : Bool), m.eval c = .ok value → (value = true ↔ c.Holds m)) ∧
    (∀ (m : Machine) (fault : RunFault), m.eval c = .error fault ↔
      ∃ before leaf, c.StopsAt before leaf ∧ leaf.evalFault? = some fault) ∧
    (c.RunsNoCommand →
      (∀ fault : Shell.Fault, c.render = .error fault ↔
        ∃ before leaf, c.StopsAt before leaf ∧ leaf.textFault? = some fault) ∧
      ∀ m : Machine,
        ((∃ fault, c.render = .error fault) ↔ ∃ fault, m.eval c = .error fault) ∧
        ∀ cause : PathFault, c.render = .error (.path cause) ↔ m.eval c = .error (.path cause)) := by
  refine ⟨fun m m' fault => ?_, fun m => eval_eq_ok_iff, fun m value => holds_of_eval,
    fun m fault => eval_eq_error_iff, fun hruns => ⟨fun fault => render_eq_error_iff hruns, fun m => ⟨?_, ?_⟩⟩⟩
  · rw [eval_eq_error_iff, eval_eq_error_iff]
  · rw [exists_error_iff, exists_error_iff, render_eq_ok_iff hruns, eval_eq_ok_iff]
  · intro cause
    rw [render_eq_error_iff hruns, eval_eq_error_iff]
    -- the two tables differ in their other faults, so they are compared at the leaf where both stop
    refine exists₂_congr fun before leaf => and_congr_right fun hstops => ?_
    obtain ⟨after, hleaves⟩ := hstops.leaves
    have hmem : leaf ∈ c.leaves := by
      rw [hleaves]
      exact List.mem_append_right before List.mem_cons_self
    exact textFault?_path_iff (hruns.ne hmem)

/-- A test that is false and would settle the conjunction, a path that is no text, and an empty place. -/
def hasty : Condition :=
  .and (.isFile (bytes "/none")) (.or (.present [255]) (.not (.and .missing (.present [0]))))

/-- A test of the home directory and of what is in it. -/
def homely : Condition := .or (.present (bytes "x")) (.not (.and (.isFile home) (.isDirectory home)))

/-- The false left side does not hide the bad path, on which text and value agree; and a condition
without bad paths is true on a machine that is just set up, as both parts say. -/
theorem eval_strict_and_classical_sample :
    hasty.StopsAt [.isFile (bytes "/none")] (.present [255]) ∧
    fresh.eval hasty = .error (.path ⟨bytes "test -e", [255]⟩) ∧
    zero.eval hasty = .error (.path ⟨bytes "test -e", [255]⟩) ∧
    hasty.render = .error (.path ⟨bytes "test -e", [255]⟩) ∧
    (∃ value, zero.eval homely = .ok value) ∧
    homely.Holds fresh := by
  obtain ⟨hsame, -, -, hfault, hrender⟩ := eval_strict_and_classical hasty
  obtain ⟨-, hvalue, htruth, -, -⟩ := eval_strict_and_classical homely
  have hstops : hasty.StopsAt [.isFile (bytes "/none")] (.present [255]) :=
    ⟨⟨[.missing, .present [0]], rfl⟩, by decide, by decide⟩
  have heval : fresh.eval hasty = .error (.path ⟨bytes "test -e", [255]⟩) :=
    (hfault fresh _).2 ⟨_, _, hstops, by decide⟩
  have hruns : hasty.RunsNoCommand := by
    intro command
    simp [hasty, leaves]
  exact ⟨hstops, heval, (hsame fresh zero _).1 heval, (((hrender hruns).2 fresh).2 _).2 heval,
    (hvalue zero).2 (by decide), (htruth fresh true (by decide +kernel)).1 rfl⟩

end Machine

end BuildScript
