import BuildScript.Proofs.Machine.Effects

/-!
# The events of a run account for what it changes

What a machine shows from outside is a snapshot: the kinds at all places of its tree, its variables,
its working directory and the texts of the commands it logged. Events change snapshots, and whoever
has the snapshot before a run and the events of the run has the snapshot after it.

* `Snapshot.replay`: events applied to a snapshot one after the other.
* `Machine.Accounts`: the events of an outcome lead from the snapshot of a machine to that of the
  outcome.
* `accounts_perform`, `accounts_andThen`, `accounts_run`: **commands, runs in a row and whole runs are
  accounted for**, whether they fail or not.
* `Event.Touches`, `touches_of_changed`: the places that an event can change.
* `events_account_for_run`: both together.
-/

namespace BuildScript

open BuildScript.Path (segments landing)

/-- What a machine shows from outside. -/
structure Snapshot where
  kinds : Kinds
  env : Bytes → Option Bytes
  cwd : Bytes
  commands : List Bytes

/-- What is at each place after a reported operation on files. Its paths are absolute. -/
def Kinds.after (kinds : Kinds) (operation path target : Bytes) : Kinds :=
  if operation = bytes "mkdir" then kinds.made (segments path)
  else if operation = bytes "write" then kinds.written (segments path)
  else if operation = bytes "cp" then kinds.copied (segments path) (landing target)
  else if operation = bytes "mv" then kinds.moved (segments path) (landing target)
  else if operation = bytes "rm" then kinds.removed (segments path)
  else kinds

namespace Snapshot

/-- A snapshot after an event. -/
def after (s : Snapshot) : Event → Snapshot
  | .command text _ _ _ => { s with commands := s.commands ++ [text] }
  | .fold _ _ => s
  | .env key value => { s with env := fun name => if name = key then some value else s.env name }
  | .file operation path target =>
    if operation = bytes "cd" then { s with cwd := path }
    else { s with kinds := s.kinds.after operation path target }

/-- A snapshot after a row of events. -/
def replay (s : Snapshot) (events : List Event) : Snapshot := events.foldl after s

theorem replay_append (s : Snapshot) (first next : List Event) :
    s.replay (first ++ next) = (s.replay first).replay next :=
  List.foldl_append

end Snapshot

namespace Machine

/-- The snapshot of a machine. -/
def snapshot (m : Machine) : Snapshot :=
  ⟨m.root.kinds, fun key => m.env.lookup key, m.cwd, m.log.map Executed.command⟩

/-- The events of an outcome lead from a machine to the machine it ended with, whose tree is in
order. -/
structure Accounts (m : Machine) (outcome : Outcome) : Prop where
  ordered : outcome.machine.root.ordered = true
  snapshot : outcome.machine.snapshot = m.snapshot.replay outcome.events

variable {m : Machine}

/-! ## Outcomes -/

theorem accounts_nothing (h : m.root.ordered = true) : Accounts m (.done (m, [])) := ⟨h, rfl⟩

theorem accounts_failed (h : m.root.ordered = true) (fault : RunFault) :
    Accounts m (.failed m fault) :=
  ⟨h, rfl⟩

/-- **Runs in a row.** -/
theorem accounts_andThen {first : Outcome} {next : Machine → Outcome} (hfirst : Accounts m first)
    (hnext : ∀ m' : Machine, m'.root.ordered = true → Accounts m' (next m')) :
    Accounts m (first.andThen next) := by
  unfold Outcome.andThen
  split
  · exact hfirst
  · have hsecond := hnext first.machine hfirst.ordered
    refine ⟨hsecond.ordered, ?_⟩
    rw [Snapshot.replay_append, ← hfirst.snapshot]
    exact hsecond.snapshot

/-- An edit of the tree is accounted for if its events have its effect. -/
theorem accounts_edited {α : Type} {edit : Edit α} {shown : α → Kinds} {events : α → List Event}
    (heffect : edit.Effect shown) (hkeep : edit.AllOrNothing m.root)
    (hevents : ∀ value, m.snapshot.replay (events value) =
      { m.snapshot with kinds := shown value }) :
    Accounts m (.ofChange (m.edited edit events)) := by
  obtain ⟨root, result⟩ := edit
  cases result with
  | error fault =>
    have hroot : root = m.root := hkeep fault rfl
    subst hroot
    exact ⟨heffect.ordered, rfl⟩
  | ok value =>
    refine ⟨heffect.ordered, ?_⟩
    have hkinds : root.kinds = shown value := heffect.kinds value rfl
    refine Eq.trans ?_ (hevents value).symm
    rw [← hkinds]
    rfl

theorem accounts_withPath {outcome : Outcome} (h : m.root.ordered = true)
    (check : Except PathFault Unit) (hnext : Accounts m outcome) :
    Accounts m (m.withPath check fun _ => outcome) := by
  cases check with
  | ok value => exact hnext
  | error fault => exact accounts_failed h (.path fault)

/-! ## Commands -/

theorem lookup_cons (name key value : Bytes) (rest : List (Bytes × Bytes)) :
    List.lookup name ((key, value) :: rest) = if name = key then some value else rest.lookup name := by
  rw [List.lookup_cons]
  by_cases h : name = key
  · simp [h]
  · simp [h, beq_false_of_ne h]

theorem lookup_setVariable (name key value : Bytes) (env : List (Bytes × Bytes)) :
    (setVariable key value env).lookup name = if name = key then some value else env.lookup name := by
  induction env with
  | nil => rw [setVariable, lookup_cons]
  | cons head rest ih =>
    obtain ⟨other, old⟩ := head
    rw [setVariable]
    split
    · rename_i hother
      rw [lookup_cons, lookup_cons, hother]
      split <;> rfl
    · rename_i hother
      split
      · rw [lookup_cons]
      · rw [lookup_cons, lookup_cons, ih]
        by_cases hname : name = other
        · rw [if_pos hname, if_pos hname, if_neg (fun h => hother (hname.symm.trans h))]
        · rw [if_neg hname, if_neg hname]

theorem accounts_logged (h : m.root.ordered = true) (text : Bytes) (options : List CommandOption) :
    Accounts m (.done (m.logged text options)) := by
  refine ⟨h, ?_⟩
  simp only [Outcome.done, logged, snapshot, Snapshot.replay, List.foldl_cons, List.foldl_nil,
    Snapshot.after, List.map_append, List.map_cons, List.map_nil]

theorem accounts_setEnv (h : m.root.ordered = true) (key value : Bytes) :
    Accounts m (.done (m.setEnv key value)) := by
  refine ⟨h, ?_⟩
  simp only [Outcome.done, setEnv, snapshot, Snapshot.replay, List.foldl_cons, List.foldl_nil,
    Snapshot.after, lookup_setVariable]

theorem accounts_changeDir (h : m.root.ordered = true) (path : Bytes) :
    Accounts m (.done (m.changeDir path)) :=
  ⟨h, rfl⟩

theorem replay_file {s : Snapshot} {operation path target : Bytes} (h : operation ≠ bytes "cd") :
    s.replay [.file operation path target] =
      { s with kinds := s.kinds.after operation path target } := by
  simp only [Snapshot.replay, List.foldl_cons, List.foldl_nil, Snapshot.after, if_neg h]

theorem accounts_remove (h : m.root.ordered = true) (path : Bytes) :
    Accounts m (.done (m.remove path)) := by
  refine ⟨Folder.ordered_remove h _, ?_⟩
  have hkinds := Folder.kinds_remove h (m.segments_resolve path)
  have hreplay : m.snapshot.replay [.file (bytes "rm") (m.resolve path) []] =
      { m.snapshot with kinds := m.root.kinds.removed (segments (m.resolve path)) } := by
    rw [replay_file (by decide), Kinds.after, if_neg (by decide), if_neg (by decide),
      if_neg (by decide), if_neg (by decide), if_pos rfl]
    rfl
  refine Eq.trans ?_ hreplay.symm
  rw [← hkinds]
  rfl

theorem accounts_makeDir (h : m.root.ordered = true) (path : Bytes) :
    Accounts m (.ofChange (m.makeDir path)) := by
  refine accounts_edited (Folder.effect_makeDir h _) (Folder.allOrNothing_makeDir _) fun _ => ?_
  rw [replay_file (by decide), Kinds.after, if_pos rfl]
  rfl

theorem accounts_put (h : m.root.ordered = true) (path data : Bytes) :
    Accounts m (.ofChange (m.put path data)) := by
  refine accounts_edited (Folder.effect_put h (m.segments_resolve path) data)
    (Folder.allOrNothing_put _ _) fun _ => ?_
  rw [replay_file (by decide), Kinds.after, if_neg (by decide), if_pos rfl]
  rfl

theorem accounts_copy (h : m.root.ordered = true) (source target : Bytes) :
    Accounts m (.ofChange (m.copy source target)) := by
  refine accounts_edited (Folder.effect_copy h _ _) (Folder.allOrNothing_copy _ _) fun found => ?_
  rw [replay_file (by decide), Kinds.after, if_neg (by decide), if_neg (by decide), if_pos rfl]
  rfl

theorem accounts_move (h : m.root.ordered = true) (source target : Bytes) :
    Accounts m (.ofChange (m.move source target)) := by
  refine accounts_edited (Folder.effect_move h (m.segments_resolve source) _)
    (Folder.allOrNothing_move _ _) fun found => ?_
  by_cases hsame : found.target = found.source
  · simp only [if_pos hsame]
    rfl
  · simp only [if_neg hsame]
    rw [replay_file (by decide), Kinds.after, if_neg (by decide), if_neg (by decide),
      if_neg (by decide), if_pos rfl]
    rfl

/-- **A command is accounted for**, whether it fails or not. -/
theorem accounts_perform (h : m.root.ordered = true) (command : Command)
    (options : List CommandOption) : Accounts m (m.perform command options) := by
  cases command with
  | raw text => exact accounts_logged h _ options
  | echo text => exact accounts_logged h _ options
  | newline => exact accounts_logged h _ options
  | setEnv key value => exact accounts_setEnv h key value
  | changeDir path => exact accounts_withPath h _ (accounts_changeDir h path)
  | writeFile path data => exact accounts_withPath h _ (accounts_put h path data)
  | makeDir path => exact accounts_withPath h _ (accounts_makeDir h path)
  | copy source target => exact accounts_withPath h _ (accounts_copy h source target)
  | move source target => exact accounts_withPath h _ (accounts_move h source target)
  | remove path => exact accounts_withPath h _ (accounts_remove h path)
  | missing => exact accounts_failed h _
  | reference inner => exact accounts_failed h _

/-! ## Runs -/

theorem accounts_fold (h : m.root.ordered = true) (name : Bytes) (start : Bool) :
    Accounts m (.done (m, [.fold name start])) :=
  ⟨h, rfl⟩

mutual
/-- **A run is accounted for**, whether it fails or not. -/
theorem accounts_run (m : Machine) (h : m.root.ordered = true) (statement : Statement) :
    Accounts m (m.run statement) := by
  cases statement with
  | missing => exact accounts_nothing h
  | noop => exact accounts_nothing h
  | sequence statements => exact accounts_runAll m h statements
  | fold name body =>
    have hbody : Accounts m ((Outcome.done (m, [.fold name true])).andThen fun m => m.run body) :=
      accounts_andThen (accounts_fold h name true) fun m' h' => accounts_run m' h' body
    exact accounts_andThen hbody fun m' h' => accounts_fold h' name false
  | action command options => exact accounts_perform h command options
  | branch condition yes no =>
    rw [run]
    split
    · exact accounts_failed h _
    · exact accounts_run m h yes
    · exact accounts_run m h no
  | reference inner => exact accounts_failed h _
/-- Statements in a row are accounted for. -/
theorem accounts_runAll (m : Machine) (h : m.root.ordered = true) (statements : List Statement) :
    Accounts m (m.runAll statements) := by
  cases statements with
  | nil => exact accounts_nothing h
  | cons statement rest =>
    exact accounts_andThen (accounts_run m h statement) fun m' h' => accounts_runAll m' h' rest
end

end Machine

/-! ## Touched places -/

/-- The places that an event can change: at or above the path of a directory made or of a file
written, at or below a path that is taken away, and at or below the path where something lands. -/
def Event.Touches (place : List Bytes) : Event → Prop
  | .file operation path target =>
    ((operation = bytes "mkdir" ∨ operation = bytes "write") ∧ place <+: segments path) ∨
    ((operation = bytes "mv" ∨ operation = bytes "rm") ∧ segments path <+: place) ∨
    ((operation = bytes "cp" ∨ operation = bytes "mv") ∧ landing target <+: place)
  | _ => False

theorem touches_of_after {s : Snapshot} {event : Event} {place : List Bytes}
    (h : (s.after event).kinds place ≠ s.kinds place) : event.Touches place := by
  cases event with
  | command text echo assert display => exact absurd rfl h
  | fold name start => exact absurd rfl h
  | env key value => exact absurd rfl h
  | file operation path target =>
    by_contra houtside
    simp only [Event.Touches, not_or, not_and] at houtside
    obtain ⟨habove, hbelow, hland⟩ := houtside
    apply h
    simp only [Snapshot.after, Kinds.after]
    split
    · rfl
    split
    · next hop => exact Kinds.made_of_not_above (habove (Or.inl hop))
    split
    · next hop => exact Kinds.written_of_not_above (habove (Or.inr hop))
    split
    · next hop => exact Kinds.grafted_of_not_below (hland (Or.inl hop))
    split
    · next hop =>
      refine (Kinds.grafted_of_not_below (hland (Or.inr hop))).trans ?_
      exact Kinds.removed_of_not_below (hbelow (Or.inl hop))
    split
    · next hop => exact Kinds.removed_of_not_below (hbelow (Or.inr hop))
    · rfl

/-- **A place that changes is touched** by one of the events. -/
theorem touches_of_changed {events : List Event} {place : List Bytes} :
    ∀ s : Snapshot, (s.replay events).kinds place ≠ s.kinds place →
      ∃ event ∈ events, event.Touches place := by
  induction events with
  | nil => exact fun _ h => absurd rfl h
  | cons event rest ih =>
    intro s h
    by_cases hfirst : (s.after event).kinds place = s.kinds place
    · rw [← hfirst] at h
      obtain ⟨later, hmem, htouch⟩ := ih (s.after event) h
      exact ⟨later, List.mem_cons_of_mem event hmem, htouch⟩
    · exact ⟨event, List.mem_cons_self, touches_of_after hfirst⟩

namespace Machine

/-- **The events of a run account for every change.** Whether a run goes through or fails: its events,
replayed from the snapshot before it, give the snapshot after it, and only places that one of them
touches can have changed. The tree is in order, as folders are, and the run keeps it so. -/
theorem events_account_for_run (m : Machine) (statement : Statement) (h : m.root.ordered = true) :
    (m.run statement).machine.root.ordered = true ∧
    (m.run statement).machine.snapshot = m.snapshot.replay (m.run statement).events ∧
    ∀ place : List Bytes, (m.run statement).machine.root.kinds place ≠ m.root.kinds place →
      ∃ event ∈ (m.run statement).events, event.Touches place := by
  have hrun := accounts_run m h statement
  refine ⟨hrun.ordered, hrun.snapshot, fun place hchanged => touches_of_changed m.snapshot ?_⟩
  rw [← hrun.snapshot]
  exact hchanged

/-- A script that works on its files until it wants to move a file that is not there. -/
def tour : Statement :=
  .sequence [
    .fold (bytes "files") (.sequence [
      .action (.makeDir (bytes "a/b")) [],
      .action (.writeFile (bytes "a/b/c") []) [],
      .action (.copy (bytes "a") (bytes "d")) [],
      .action (.move (bytes "a/b") (bytes "d")) [],
      .action (.move (bytes "d") (bytes ".")) [],
      .action (.remove (bytes "a")) []]),
    .action (.changeDir (bytes "d")) [],
    .action (.setEnv (bytes "K") (bytes "v")) [],
    .action (.raw (bytes "make")) [],
    .action (.move (bytes "e") (bytes "b")) []]

/-- A file that was written, copied and moved is accounted for by the events of a run that fails in
the end. The directory that lands in its own place is in none of them. -/
theorem events_account_for_run_sample :
    fresh.root.ordered = true ∧
    (fresh.run tour).fault? = some (.file (.notFound (bytes "/home/travis/d/e"))) ∧
    (fresh.run tour).events = [
      .fold (bytes "files") true,
      .file (bytes "mkdir") (bytes "/home/travis/a/b") [],
      .file (bytes "write") (bytes "/home/travis/a/b/c") [],
      .file (bytes "cp") (bytes "/home/travis/a") (bytes "/home/travis/d"),
      .file (bytes "mv") (bytes "/home/travis/a/b") (bytes "/home/travis/d/b"),
      .file (bytes "rm") (bytes "/home/travis/a") [],
      .fold (bytes "files") false,
      .file (bytes "cd") (bytes "/home/travis/d") [],
      .env (bytes "K") (bytes "v"),
      .command (bytes "make") false false []] ∧
    (fresh.run tour).machine.snapshot = fresh.snapshot.replay (fresh.run tour).events ∧
    ∃ event ∈ (fresh.run tour).events,
      event.Touches (segments (bytes "/home/travis/d/b/c")) := by
  have hordered : fresh.root.ordered = true := by decide +kernel
  obtain ⟨-, hreplay, htouch⟩ := events_account_for_run fresh tour hordered
  exact ⟨hordered, by decide +kernel, by decide +kernel, hreplay, htouch _ (by decide +kernel)⟩

end Machine

end BuildScript
