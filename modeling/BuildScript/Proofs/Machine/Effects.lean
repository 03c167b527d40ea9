import BuildScript.Proofs.Files.Kinds
import BuildScript.Proofs.Machine.Failure
import BuildScript.Proofs.Path.Segments

/-!
# What the operations do to the tree

Each operation that goes through has one effect on what the tree shows, told by the paths that it
reports.

* `Edit.Effect`: an edit that keeps the tree in order and, if it goes through, shows what it should.
* `effect_makeDir`, `effect_put`, `effect_copy`, `effect_move`, `kinds_remove`: **the effects of the
  operations.** `shown_put`, `shown_remove`: the same, whatever is asked of entries.
* `put_ok_iff`, `makeDir_done_iff`: when a file is written and when a directory is made.
* `resolve_clean`: the paths that operations get are clean.
-/

namespace BuildScript

open BuildScript.Path (segments landing)

/-- An edit that keeps the tree in order and shows, if it goes through, the kinds that are given. -/
structure Edit.Effect {α : Type} (edit : Edit α) (shown : α → Kinds) : Prop where
  ordered : edit.root.ordered = true
  kinds : ∀ value, edit.result = .ok value → edit.root.kinds = shown value

theorem Edit.effect_failed {α : Type} {root : Folder} (h : root.ordered = true) (fault : FileFault)
    (shown : α → Kinds) : Edit.Effect ⟨root, .error fault⟩ shown :=
  ⟨h, nofun⟩

theorem Edit.effect_ok {α : Type} {root : Folder} {value : α} {shown : α → Kinds}
    (h : root.ordered = true) (hkinds : root.kinds = shown value) :
    Edit.Effect ⟨root, .ok value⟩ shown := by
  refine ⟨h, fun other hother => ?_⟩
  cases hother
  exact hkinds

namespace Folder

variable {root : Folder}

theorem effect_makeDir (hroot : root.ordered = true) (path : Bytes) :
    (makeDir path root).Effect fun _ => root.kinds.made (segments path) := by
  have hordered := ordered_makeDirs (segments path) hroot
  unfold makeDir
  split
  · next made hmade =>
    rw [hmade] at hordered
    refine Edit.effect_ok hordered ?_
    have hkinds := kinds_makeDirs (congrArg Prod.snd hmade)
    rwa [hmade] at hkinds
  · next made place hmade =>
    rw [hmade] at hordered
    exact Edit.effect_failed hordered _ _

theorem makeDir_ok_iff {path : Bytes} :
    (makeDir path root).result = .ok () ↔ (makeDirs (segments path) root).2 = none := by
  unfold makeDir
  split <;> simp [*]

/-- **When a file is written**: the directories above it can be made, and none is in its place. -/
theorem put_ok_iff {path data : Bytes} : (put path data root).result = .ok () ↔
    path ≠ Path.root ∧ (makeDirs (segments (Path.splitLast path).1) root).2 = none ∧
      root.kinds (landing path) ≠ some .dir := by
  unfold put
  split
  · next htop => simp [htop]
  · next hne =>
    dsimp only
    split
    · next made fault hmade =>
      have hstop : ¬ (makeDirs (segments (Path.splitLast path).1) root).2 = none := by
        rw [← makeDir_ok_iff, hmade]
        exact nofun
      simp [hstop]
    · next made hmade =>
      have hstop := makeDir_ok_iff.1 (congrArg Edit.result hmade)
      have hmade : made = (makeDirs (segments (Path.splitLast path).1) root).1 := by
        rw [← makeDir_root, hmade]
      -- what is at the place itself was there before
      have hold : made.kinds (landing path) = root.kinds (landing path) := by
        rw [hmade, kinds_makeDirs hstop, Kinds.made_of_not_above]
        intro hlong
        have hlength := hlong.length_le
        rw [landing, List.length_append, List.length_singleton] at hlength
        omega
      rw [← hold, Ne, Ne, kinds_eq_dir_iff]
      split
      · next inner hwalk => simp [landing, hwalk]
      · next hfree =>
        refine iff_of_true rfl ⟨hne, hstop, ?_⟩
        rintro ⟨inner, hwalk⟩
        exact hfree inner hwalk

theorem put_root {path data : Bytes} (h : (put path data root).result = .ok ()) :
    (put path data root).root =
      update (insert (Path.splitLast path).2 (.file data)) (segments (Path.splitLast path).1)
        (makeDirs (segments (Path.splitLast path).1) root).1 := by
  unfold put at h ⊢
  split at h
  · cases h
  · next hne =>
    rw [if_neg hne]
    dsimp only at h ⊢
    split at h
    · cases h
    · next made hmade =>
      have hroot : made = (makeDirs (segments (Path.splitLast path).1) root).1 := by
        rw [← makeDir_root, hmade]
      split at h
      · cases h
      · rw [hroot]

/-- What is at each place after a file was written, whatever is asked of entries. -/
theorem shown_put {β : Type} {f : Entry → β} (hf : ∀ a b, f (.dir a) = f (.dir b)) {path data : Bytes}
    (hpath : path ≠ Path.root → segments path = landing path)
    (h : (put path data root).result = .ok ()) (other : List Bytes) :
    ((put path data root).root.walk other).map f =
      if other = segments path then some (f (.file data))
      else if other <+: segments path then some (f (.dir [])) else (root.walk other).map f := by
  obtain ⟨hne, hstop, hfree⟩ := put_ok_iff.1 h
  rw [put_root h, hpath hne]
  exact shown_written hf hstop hfree data other

theorem ordered_put (hroot : root.ordered = true) (path data : Bytes) :
    (put path data root).root.ordered = true := by
  cases hresult : (put path data root).result with
  | error fault => rwa [allOrNothing_put path data fault hresult]
  | ok value =>
    rw [put_root hresult]
    exact ordered_update (fun _ hinner => ordered_insert hinner rfl _) _ (ordered_makeDirs _ hroot)

theorem effect_put (hroot : root.ordered = true) {path : Bytes}
    (hpath : path ≠ Path.root → segments path = landing path) (data : Bytes) :
    (put path data root).Effect fun _ => root.kinds.written (segments path) :=
  ⟨ordered_put hroot path data, fun _ h => funext (shown_put (fun _ _ => rfl) hpath h)⟩

theorem ordered_remove (hroot : root.ordered = true) (path : Bytes) :
    (remove path root).ordered = true := by
  unfold remove
  split
  · rfl
  · exact ordered_update (fun _ hinner => ordered_erase hinner _) _ hroot

/-- What is at each place after something was taken away, whatever is asked of entries. The top of a
tree stays. -/
theorem shown_remove {β : Type} {f : Entry → β} (hf : ∀ a b, f (.dir a) = f (.dir b))
    (hroot : root.ordered = true) {path : Bytes}
    (hpath : path ≠ Path.root → segments path = landing path) (other : List Bytes) :
    ((remove path root).walk other).map f =
      if segments path <+: other ∧ other ≠ [] then none else (root.walk other).map f := by
  unfold remove
  split
  · next htop =>
    have hnil : segments path = [] := by rw [htop]; decide
    rw [hnil]
    by_cases hother : other = []
    · rw [hother, if_neg (fun h => h.2 rfl), walk_nil, walk_nil, Option.map_some, Option.map_some, hf]
    · rw [if_pos ⟨List.nil_prefix, hother⟩, walk_empty hother, Option.map_none]
  · next hne =>
    have hlong : landing path <+: other → other ≠ [] := by
      rintro hbelow rfl
      exact List.append_ne_nil_of_right_ne_nil _ (List.cons_ne_nil _ _) (List.prefix_nil.1 hbelow)
    rw [hpath hne]
    simp only [and_iff_left_of_imp hlong]
    exact shown_eraseAt hf hroot _ _ other

theorem kinds_remove (hroot : root.ordered = true) {path : Bytes}
    (hpath : path ≠ Path.root → segments path = landing path) :
    (remove path root).kinds = root.kinds.removed (segments path) :=
  funext (shown_remove (fun _ _ => rfl) hroot hpath)

/-! ## Copies and moves -/

/-- What a landing point says of the tree it was found in. -/
structure Found (root : Folder) (source : Bytes) (found : Landing) : Prop where
  origin : found.source = source
  entry : root.walk (segments source) = some found.entry
  holder : ∃ folder, root.walk (segments (Path.splitLast found.target).1) = some (.dir folder) ∧
    found.old? = find? (Path.splitLast found.target).2 folder

theorem parent_of_ok {path name : Bytes} {folder : Folder} (h : root.parent path = .ok (folder, name)) :
    root.walk (segments (Path.splitLast path).1) = some (.dir folder) ∧
      name = (Path.splitLast path).2 := by
  unfold parent at h
  dsimp only at h
  split at h
  · cases h
  · cases h
  · next inner hwalk =>
    cases h
    exact ⟨hwalk, rfl⟩

theorem found_of_find {source target : Bytes} {found : Landing}
    (h : Landing.find root source target = .ok found) : Found root source found := by
  unfold Landing.find at h
  split at h
  · cases h
  · next entry hentry =>
    dsimp only at h
    split at h
    · cases h
    · next folder name hparent =>
      obtain ⟨hwalk, rfl⟩ := parent_of_ok hparent
      split at h
      · cases h
      · cases h
      · cases h
        exact ⟨rfl, hentry, folder, hwalk, rfl⟩

variable {source target : Bytes} {found : Landing}

theorem Found.entry_ordered (h : Found root source found) (hroot : root.ordered = true) :
    found.entry.ordered = true :=
  ordered_walk hroot h.entry

theorem Found.overlay_ordered (h : Found root source found) (hroot : root.ordered = true) :
    (overlay found.entry found.old?).ordered = true := by
  obtain ⟨folder, hwalk, hold⟩ := h.holder
  refine ordered_overlay _ _ (h.entry_ordered hroot) fun old hfound => ?_
  rw [hold] at hfound
  exact ordered_find? (ordered_walk hroot hwalk) hfound

/-- What is at the landing point so far, and below it. -/
theorem Found.walk_old (h : Found root source found) (rest : List Bytes) :
    found.old?.bind (·.walk rest) = root.walk (landing found.target ++ rest) := by
  obtain ⟨folder, hwalk, hold⟩ := h.holder
  rw [hold, landing, List.append_assoc, walk_append, hwalk]
  exact (walk_name folder _ rest).symm

/-- What is shown at the landing point so far. -/
theorem Found.kinds_old (h : Found root source found) :
    (fun rest => found.old?.bind (·.kinds rest)) = root.kinds.below (landing found.target) := by
  funext rest
  refine Eq.trans ?_ (congrArg (Option.map Entry.kind) (h.walk_old rest))
  cases found.old? <;> rfl

theorem ordered_place (hroot : root.ordered = true) {entry : Entry} (hentry : entry.ordered = true)
    (found : Landing) : (found.place entry root).ordered = true :=
  ordered_update (fun _ hinner => ordered_insert hinner hentry _) _ hroot

theorem kinds_place (found : Landing) (entry : Entry) (root : Folder) :
    (found.place entry root).kinds = root.kinds.grafted (landing found.target) entry.kinds :=
  kinds_insertAt _ _ entry root

theorem effect_copy (hroot : root.ordered = true) (source target : Bytes) :
    (copy source target root).Effect fun found =>
      root.kinds.copied (segments found.source) (landing found.target) := by
  unfold copy
  split
  · exact Edit.effect_failed hroot _ _
  · next found hfind =>
    have h := found_of_find hfind
    split
    · exact Edit.effect_failed hroot _ _
    · refine Edit.effect_ok (ordered_place hroot (h.overlay_ordered hroot) found) ?_
      rw [kinds_place, kinds_overlay (h.entry_ordered hroot), h.kinds_old, Kinds.copied, h.origin,
        kinds_below h.entry]

theorem effect_move (hroot : root.ordered = true)
    (hsource : source ≠ Path.root → segments source = landing source) (target : Bytes) :
    (move source target root).Effect fun found =>
      if found.target = found.source then root.kinds
      else root.kinds.moved (segments found.source) (landing found.target) := by
  unfold move
  split
  · exact Edit.effect_failed hroot _ _
  · next found hfind =>
    have h := found_of_find hfind
    rw [← h.origin]
    split
    · next hsame =>
      refine Edit.effect_ok hroot ?_
      rw [if_pos hsame]
    · next hother =>
      split
      · exact Edit.effect_failed hroot _ _
      · split
        · exact Edit.effect_failed hroot _ _
        · refine Edit.effect_ok
            (ordered_place (ordered_remove hroot _) (h.entry_ordered hroot) found) ?_
          rw [kinds_place, if_neg hother, Kinds.moved, h.origin, kinds_remove hroot hsource,
            kinds_below h.entry]

end Folder

/-- **The paths that operations get are clean.** -/
theorem Machine.resolve_clean (machine : Machine) (path : Bytes) :
    ∃ p, machine.resolve path = Path.clean p := by
  unfold resolve
  split
  · exact ⟨path, rfl⟩
  · have hcwd : (if machine.cwd = [] then Path.root else machine.cwd) ≠ [] := by
      split
      · decide
      · assumption
    unfold Path.join
    simp [hcwd]

/-- **A directory is made exactly if no file is in the way.** -/
theorem Machine.makeDir_done_iff {machine : Machine} {path : Bytes} :
    (machine.makeDir path).fault? = none ↔
      ∀ part, part <+: segments (machine.resolve path) → machine.root.kinds part ≠ some .file := by
  rw [makeDir, edited_fault_iff, ← Folder.makeDirs_stop_iff, ← Folder.makeDir_ok_iff]
  exact ⟨fun ⟨_, h⟩ => h, fun h => ⟨(), h⟩⟩

theorem Machine.segments_resolve (machine : Machine) (path : Bytes)
    (h : machine.resolve path ≠ Path.root) :
    segments (machine.resolve path) = landing (machine.resolve path) := by
  obtain ⟨p, hp⟩ := machine.resolve_clean path
  rw [hp] at h ⊢
  exact Path.segments_clean h

end BuildScript
