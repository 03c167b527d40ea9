import BuildScript.Proofs.Files.Contents
import BuildScript.Proofs.Machine.Reach
import BuildScript.Proofs.Machine.Replay

/-!
# Where copied and moved entries land

Copying and moving begin in the same way: a directory receives an entry under its own name, the
directory above the landing point has to be there, and what is at the landing point has to be of the
same kind.

* `Machine.Reachable`, `Machine.Sound`: the machines that can be reached, and what holds of them.
* `Machine.landsAt`: the path at which an entry lands.
* `Folder.CanLand`: what has to be so for an entry to land. `find_ok_iff`: **a landing point is found
  exactly then.**
* `Sound.lands`: the places that a copy or a move works with, as rows of names.
-/

namespace BuildScript

open BuildScript.Path (segments landing IsProper IsClean ofNames)

namespace Folder

variable {root : Folder} {source target path : Bytes} {place : List Bytes}

/-- What has to be so for what is at one place to land at another. -/
structure CanLand (root : Folder) (source place : List Bytes) : Prop where
  present : root.kinds source ≠ none
  holder : root.kinds place.dropLast = some .dir
  sameKind : ∀ a b, root.kinds source = some a → root.kinds place = some b → a = b

theorem kinds_of_walk {entry : Entry} (h : root.walk place = some entry) :
    root.kinds place = some entry.kind :=
  congrArg (Option.map Entry.kind) h

/-- The directory that holds what is at a path is found exactly if it is there. -/
theorem parent_ok_iff : (∃ found, root.parent path = .ok found) ↔
    root.kinds (segments (Path.splitLast path).1) = some .dir := by
  rw [kinds_eq_dir_iff]
  unfold parent
  dsimp only
  cases hwalk : root.walk (segments (Path.splitLast path).1) with
  | none => simp
  | some entry => cases entry <;> simp

/-- Where the directory above is there, a landing point is found unless something of another kind is in
the way. -/
theorem find_ok_of_parent {entry : Entry} {folder : Folder} {name : Bytes}
    (hentry : root.walk (segments source) = some entry)
    (hparent : root.parent (Landing.targetPath root source target) = .ok (folder, name)) :
    (∃ found, Landing.find root source target = .ok found) ↔
      ∀ old, find? name folder = some old → entry.kind = old.kind := by
  simp only [Landing.find, hentry, hparent]
  generalize find? name folder = old?
  cases old? with
  | none => cases entry <;> simp
  | some old => cases entry <;> cases old <;> simp [Entry.kind]

/-- **A landing point is found exactly if the entry can land there.** -/
theorem find_ok_iff (hplace : landing (Landing.targetPath root source target) = place) :
    (∃ found, Landing.find root source target = .ok found) ↔ CanLand root (segments source) place := by
  have habove : place.dropLast = segments (Path.splitLast (Landing.targetPath root source target)).1 := by
    rw [← hplace, landing, List.dropLast_concat]
  cases hentry : root.walk (segments source) with
  | none =>
    have hnone : root.kinds (segments source) = none := congrArg (Option.map Entry.kind) hentry
    simp only [Landing.find, hentry, reduceCtorEq, exists_false, false_iff]
    exact fun h => h.present hnone
  | some entry =>
    cases hparent : root.parent (Landing.targetPath root source target) with
    | error fault =>
      simp only [Landing.find, hentry, hparent, reduceCtorEq, exists_false, false_iff]
      intro h
      have hholder := h.holder
      rw [habove, ← parent_ok_iff, hparent] at hholder
      obtain ⟨found, hfound⟩ := hholder
      cases hfound
    | ok found =>
      obtain ⟨folder, name⟩ := found
      obtain ⟨hwalk, rfl⟩ := parent_of_ok hparent
      have hsource := kinds_of_walk hentry
      have hold : root.kinds place =
          (find? (Path.splitLast (Landing.targetPath root source target)).2 folder).map Entry.kind := by
        rw [← hplace, landing, kinds_append, hwalk]
        rfl
      rw [find_ok_of_parent hentry hparent]
      constructor
      · intro h
        refine ⟨by rw [hsource]; exact Option.some_ne_none _, by rw [habove]; exact kinds_of_walk hwalk, ?_⟩
        intro a b ha hb
        rw [hsource, Option.some.injEq] at ha
        rw [hold] at hb
        obtain ⟨old, hfound, rfl⟩ := Option.map_eq_some_iff.1 hb
        exact ha ▸ h old hfound
      · intro h old hfound
        exact h.sameKind _ _ hsource (by rw [hold, hfound, Option.map_some])

end Folder

namespace Machine

/-- A machine that was started in some way and with which some things were done. -/
def Reachable (m : Machine) : Prop :=
  ∃ (origin : Origin) (operations : List Operation), m = origin.machine.after operations

/-- What holds of every machine that can be reached: the working directory is clean or unset, and the
tree is in order. -/
structure Sound (m : Machine) : Prop where
  cwd : m.cwd = [] ∨ IsClean m.cwd
  ordered : m.root.ordered = true

theorem ordered_does {m : Machine} (h : m.root.ordered = true) (operation : Operation) :
    (m.does operation).root.ordered = true := by
  cases operation with
  | run statement => exact (accounts_run m h statement).ordered
  | makeDir path => exact (accounts_makeDir h path).ordered
  | put path data => exact (accounts_put h path data).ordered
  | copy source target => exact (accounts_copy h source target).ordered
  | move source target => exact (accounts_move h source target).ordered
  | remove path => exact (accounts_remove h path).ordered

theorem Reachable.sound {m : Machine} (h : m.Reachable) : m.Sound := by
  obtain ⟨origin, operations, rfl⟩ := h
  constructor
  · have htidy := tidy_after (fun _ _ _ hproper => hproper) (tidy_origin origin) operations
    exact htidy.cwd.imp_left And.left
  · refine after_keeps (I := fun m => m.root.ordered = true) (fun m operation _ hm => ?_) _ ?_
    · exact ordered_does hm operation
    · cases origin with
      | fresh => decide +kernel
      | bare cwd => rfl
      | zero => rfl

/-- The path at which an entry lands: a directory receives it under its own name. -/
def landsAt (m : Machine) (source target : Bytes) : Bytes :=
  if m.hasDirectory target then Path.join [m.resolve target, Path.base (m.resolve source)]
  else m.resolve target

theorem landsAt_eq (m : Machine) (source target : Bytes) :
    m.landsAt source target =
      Landing.targetPath m.root (m.resolve source) (m.resolve target) := by
  unfold landsAt hasDirectory lookup Landing.targetPath
  cases m.root.walk (segments (m.resolve target)) with
  | none => rfl
  | some entry => cases entry <;> rfl

/-- The rows of names that a copy or a move works with. Only the root lands at the root. -/
structure Lands (m : Machine) (source target : Bytes) (s d : List Bytes) : Prop where
  origin : m.resolve source = ofNames s
  place : m.landsAt source target = ofNames d
  proper : ∀ n ∈ s, IsProper n
  placeProper : ∀ n ∈ d, IsProper n
  ne_nil : s ≠ [] → d ≠ []

theorem Sound.lands {m : Machine} (h : m.Sound) (source target : Bytes) :
    ∃ s d, Lands m source target s d := by
  obtain ⟨s, hs, hsproper⟩ := resolve_ofNames h.cwd source
  obtain ⟨t, ht, htproper⟩ := resolve_ofNames h.cwd target
  have hsource : ∀ n ∈ s, IsProper n := fun n hn => (hsproper n hn).1
  have htarget : ∀ n ∈ t, IsProper n := fun n hn => (htproper n hn).1
  obtain ⟨d, hd, hnames, hne⟩ := targetPath_ofNames hsource htarget m.root
  refine ⟨s, d, hs, ?_, hsource, fun n hn => (hnames n hn).elim (hsource n) (htarget n), hne⟩
  rw [landsAt_eq, hs, ht, hd]

end Machine

end BuildScript
