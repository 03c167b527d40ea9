import BuildScript.Machine.Run
import BuildScript.Proofs.Files.MakeDirs

/-!
# Operations that fail

An operation on files is done as a whole or not at all, although it changes the tree step by step.

* `Edit.AllOrNothing`, `Change.AllOrNothing`, `Outcome.AllOrNothing`: the property of an edit of a
  tree, of an operation on a machine, and of a run.
* `allOrNothing_makeDir`, `allOrNothing_put`, `allOrNothing_copy`, `allOrNothing_move`: the edits.
* `allOrNothing_perform`: **a command that fails leaves the machine as it was and reports nothing.**
-/

namespace BuildScript

/-- An edit that leaves the tree as it was if it fails. -/
def Edit.AllOrNothing {α : Type} (edit : Edit α) (root : Folder) : Prop :=
  ∀ fault, edit.result = .error fault → edit.root = root

/-- An operation that, if it fails, leaves the machine as it was and reports nothing. -/
def Machine.Change.AllOrNothing (change : Machine.Change) (machine : Machine) : Prop :=
  ∀ fault, change.fault? = some fault → change = ⟨machine, [], some fault⟩

/-- A run that, if it fails, leaves the machine as it was and reports nothing. -/
def Outcome.AllOrNothing (outcome : Outcome) (machine : Machine) : Prop :=
  ∀ fault, outcome.fault? = some fault → outcome = .failed machine fault

namespace Edit

variable {α : Type} {root : Folder}

theorem allOrNothing_kept (result : Except FileFault α) : Edit.AllOrNothing ⟨root, result⟩ root :=
  fun _ _ => rfl

theorem allOrNothing_ok (made : Folder) (value : α) : Edit.AllOrNothing ⟨made, .ok value⟩ root :=
  fun _ h => nomatch h

end Edit

namespace Folder

open Edit

variable {root : Folder}

theorem allOrNothing_makeDir (path : Bytes) : (makeDir path root).AllOrNothing root := by
  unfold makeDir
  split
  · exact allOrNothing_ok _ _
  · next made place hmade =>
    have hkeep : made = root := by simpa [hmade] using makeDirs_of_stop (congrArg Prod.snd hmade)
    rw [hkeep]
    exact allOrNothing_kept _

/-- The tree after directories were made, whether or not that went through. -/
theorem makeDir_root (path : Bytes) :
    (makeDir path root).root = (makeDirs (Path.segments path) root).1 := by
  unfold makeDir
  split <;> simp [*]

theorem allOrNothing_put (path data : Bytes) : (put path data root).AllOrNothing root := by
  unfold put
  split
  · exact allOrNothing_kept _
  · obtain ⟨above, name⟩ := Path.splitLast path
    dsimp only
    split
    · next made fault hmade =>
      have hkeep := allOrNothing_makeDir above fault (congrArg Edit.result hmade)
      rw [hmade] at hkeep
      cases hkeep
      exact allOrNothing_kept _
    · next made hmade =>
      split
      · next folder hwalk =>
        -- the name is there, so the directories above it were there before
        have hroot : made = (makeDirs (Path.segments above) root).1 := by rw [← makeDir_root, hmade]
        have hkeep : made = root := by
          rw [hroot] at hwalk ⊢
          exact makeDirs_of_walk hwalk
        rw [hkeep]
        exact allOrNothing_kept _
      · exact allOrNothing_ok _ _

theorem allOrNothing_copy (source target : Bytes) : (copy source target root).AllOrNothing root := by
  unfold copy
  split
  · exact allOrNothing_kept _
  · split
    · exact allOrNothing_kept _
    · exact allOrNothing_ok _ _

theorem allOrNothing_move (source target : Bytes) : (move source target root).AllOrNothing root := by
  unfold move
  split
  · exact allOrNothing_kept _
  · split
    · exact allOrNothing_kept _
    · split
      · exact allOrNothing_kept _
      · split
        · exact allOrNothing_kept _
        · exact allOrNothing_ok _ _

end Folder

namespace Machine

variable {machine : Machine}

theorem edited_machine {α : Type} (machine : Machine) (edit : Edit α) (events : α → List Event) :
    (machine.edited edit events).machine = { machine with root := edit.root } := by
  obtain ⟨root, result⟩ := edit
  cases result <;> rfl

theorem edited_fault_iff {α : Type} (machine : Machine) (edit : Edit α) (events : α → List Event) :
    (machine.edited edit events).fault? = none ↔ ∃ value, edit.result = .ok value := by
  obtain ⟨root, result⟩ := edit
  cases result <;> simp [edited]

/-- An operation is all or nothing if its edit of the tree is. -/
theorem allOrNothing_edited {α : Type} {edit : Edit α} (events : α → List Event)
    (h : edit.AllOrNothing machine.root) : (machine.edited edit events).AllOrNothing machine := by
  intro fault hfault
  obtain ⟨root, result⟩ := edit
  cases result with
  | ok value => cases hfault
  | error inner =>
    have hroot : root = machine.root := h inner rfl
    cases hfault
    rw [hroot]
    rfl

theorem allOrNothing_done (result : Machine × List Event) :
    (Outcome.done result).AllOrNothing machine := by
  intro fault h
  cases h

theorem allOrNothing_ofChange {change : Change} (h : change.AllOrNothing machine) :
    (Outcome.ofChange change).AllOrNothing machine := by
  intro fault hfault
  obtain ⟨inner, hinner, rfl⟩ := Option.map_eq_some_iff.1 hfault
  rw [h inner hinner]
  rfl

/-- A path is looked at before anything is done. -/
theorem allOrNothing_withPath {next : Unit → Outcome} (check : Except PathFault Unit)
    (h : (next ()).AllOrNothing machine) : (machine.withPath check next).AllOrNothing machine := by
  cases check with
  | ok value => exact h
  | error inner =>
    intro fault hfault
    cases hfault
    rfl

/-- **A command that fails leaves the machine as it was and reports nothing.** -/
theorem allOrNothing_perform (command : Command) (options : List CommandOption) :
    (machine.perform command options).AllOrNothing machine := by
  cases command with
  | raw text => exact allOrNothing_done _
  | echo text => exact allOrNothing_done _
  | newline => exact allOrNothing_done _
  | setEnv key value => exact allOrNothing_done _
  | changeDir path => exact allOrNothing_withPath _ (allOrNothing_done _)
  | remove path => exact allOrNothing_withPath _ (allOrNothing_done _)
  | writeFile path data =>
    exact allOrNothing_withPath _ (allOrNothing_ofChange
      (allOrNothing_edited _ (Folder.allOrNothing_put _ _)))
  | makeDir path =>
    exact allOrNothing_withPath _ (allOrNothing_ofChange
      (allOrNothing_edited _ (Folder.allOrNothing_makeDir _)))
  | copy source target =>
    exact allOrNothing_withPath _ (allOrNothing_ofChange
      (allOrNothing_edited _ (Folder.allOrNothing_copy _ _)))
  | move source target =>
    exact allOrNothing_withPath _ (allOrNothing_ofChange
      (allOrNothing_edited _ (Folder.allOrNothing_move _ _)))
  | missing => exact fun _ h => by cases h; rfl
  | reference inner => exact fun _ h => by cases h; rfl

end Machine

end BuildScript
