import BuildScript.Proofs.Files.Changes
import BuildScript.Proofs.Machine.Landing

/-!
# What making, writing and removing do

A directory is made, or a file written, unless something of the other kind is in the way. Taking
something away never fails, not even where a file is in the way to it.

* `contents_makeDir`, `contents_put`, `contents_remove`: what is at each place afterwards.
* `makeDir_again`, `put_again`, `remove_again`: **done twice is done once.**
* `makeDir_done_iff`, `put_done_iff`: **when the operations go through.**
* `file_operations_exactly`: all of it, for every machine that can be reached.
-/

namespace BuildScript

open BuildScript.Path (segments landing)

namespace Folder

variable {root : Folder} {path data : Bytes}

/-! ## What is left -/

theorem contents_makeDir (h : (makeDir path root).result = .ok ()) :
    (makeDir path root).root.contents = root.contents.made (segments path) := by
  rw [makeDir_root]
  exact funext (shown_makeDirs (fun _ _ => rfl) (makeDir_ok_iff.1 h))

theorem ordered_makeDir (hroot : root.ordered = true) (path : Bytes) :
    (makeDir path root).root.ordered = true := by
  rw [makeDir_root]
  exact ordered_makeDirs _ hroot

theorem contents_put (hpath : path ≠ Path.root → segments path = landing path)
    (h : (put path data root).result = .ok ()) :
    (put path data root).root.contents = root.contents.written (segments path) data :=
  funext (shown_put (fun _ _ => rfl) hpath h)

theorem contents_remove (hroot : root.ordered = true)
    (hpath : path ≠ Path.root → segments path = landing path) :
    (remove path root).contents = root.contents.removed (segments path) :=
  funext (shown_remove (fun _ _ => rfl) hroot hpath)

/-! ## A second time -/

/-- An edit that is done again, goes through and leaves the same contents is the same edit. -/
theorem again_of_contents {first second : Edit Unit} (hfirst : first.result = .ok ())
    (hsecond : second.result = .ok ()) (hordered : first.root.ordered = true)
    (hagain : second.root.ordered = true) (h : second.root.contents = first.root.contents) :
    second = first := by
  obtain ⟨made, result⟩ := first
  obtain ⟨again, result'⟩ := second
  cases hfirst
  cases hsecond
  rw [eq_of_contents again made hagain hordered h]

theorem makeDir_again (hroot : root.ordered = true) (h : (makeDir path root).result = .ok ()) :
    makeDir path (makeDir path root).root = makeDir path root := by
  have hordered := ordered_makeDir hroot path
  have hcontents := contents_makeDir h
  have hmade := made_of_contents hroot hordered hcontents
  -- the way was made, so no file is in it
  have hagain : (makeDir path (makeDir path root).root).result = .ok () := by
    rw [makeDir_ok_iff, makeDirs_stop_iff]
    intro part hpart hfile
    rw [hmade.way part hpart] at hfile
    cases hfile
  refine again_of_contents h hagain hordered (ordered_makeDir hordered path) ?_
  rw [contents_makeDir hagain, hcontents, Contents.made_made]

/-- **A file is written** unless its path is the root, a file is in the way or a directory in its place. -/
theorem put_ok_iff_way (hpath : path ≠ Path.root → segments path = landing path) :
    (put path data root).result = .ok () ↔
      path ≠ Path.root ∧
      (∀ part, part <+: segments path → part ≠ segments path → root.kinds part ≠ some .file) ∧
      root.kinds (segments path) ≠ some .dir := by
  rw [put_ok_iff, makeDirs_stop_iff]
  refine and_congr_right fun hne => ?_
  rw [hpath hne, landing]
  refine and_congr_left fun _ => forall_congr' fun part => ?_
  rw [List.prefix_concat_iff]
  constructor
  · intro h hpart hother
    exact h (hpart.resolve_left hother)
  · intro h hpart
    refine h (Or.inr hpart) fun heq => ?_
    have hlength := hpart.length_le
    rw [heq, List.length_append, List.length_singleton] at hlength
    omega

theorem put_again (hroot : root.ordered = true)
    (hpath : path ≠ Path.root → segments path = landing path)
    (h : (put path data root).result = .ok ()) :
    put path data (put path data root).root = put path data root := by
  have hordered := ordered_put hroot path data
  have hcontents := contents_put hpath h
  have hwritten := written_of_contents hroot hordered hcontents
  have hagain : (put path data (put path data root).root).result = .ok () := by
    rw [put_ok_iff_way hpath]
    refine ⟨((put_ok_iff_way hpath).1 h).1, fun part hpart hne hfile => ?_, ?_⟩
    · rw [hwritten.way part hpart hne] at hfile
      cases hfile
    · intro hdir
      rw [kinds_of_walk hwritten.file] at hdir
      cases hdir
  refine again_of_contents h hagain hordered (ordered_put hordered path data) ?_
  rw [contents_put hpath hagain, hcontents, Contents.written_written]

theorem remove_again (hroot : root.ordered = true)
    (hpath : path ≠ Path.root → segments path = landing path) :
    remove path (remove path root) = remove path root := by
  have hordered := ordered_remove hroot path
  refine eq_of_contents _ _ (ordered_remove hordered path) hordered ?_
  rw [contents_remove hordered hpath, contents_remove hroot hpath, Contents.removed_removed]

end Folder

namespace Machine

variable {m : Machine} {path data abs : Bytes}

theorem makeDir_machine (m : Machine) (path : Bytes) :
    (m.makeDir path).machine = { m with root := (m.root.makeDir (m.resolve path)).root } :=
  edited_machine ..

theorem put_machine (m : Machine) (path data : Bytes) :
    (m.put path data).machine = { m with root := (m.root.put (m.resolve path) data).root } :=
  edited_machine ..

/-- An edit replaces the tree, whatever the tree was. -/
theorem edited_root {α : Type} (m : Machine) (root : Folder) (edit : Edit α)
    (events : α → List Event) : edited { m with root } edit events = m.edited edit events := by
  obtain ⟨other, result⟩ := edit
  cases result <;> rfl

theorem makeDir_ok (h : (m.makeDir path).fault? = none) :
    (m.root.makeDir (m.resolve path)).result = .ok () := by
  rw [Folder.makeDir_ok_iff, Folder.makeDirs_stop_iff]
  exact makeDir_done_iff.1 h

theorem put_ok (h : (m.put path data).fault? = none) :
    (m.root.put (m.resolve path) data).result = .ok () := by
  rw [put, edited_fault_iff] at h
  obtain ⟨value, h⟩ := h
  exact h

/-- **When a file is written.** -/
theorem put_done_iff : (m.put path data).fault? = none ↔
    m.resolve path ≠ Path.root ∧
    (∀ part, part <+: segments (m.resolve path) → part ≠ segments (m.resolve path) →
      m.root.kinds part ≠ some .file) ∧
    m.root.kinds (segments (m.resolve path)) ≠ some .dir := by
  rw [← Folder.put_ok_iff_way (m.segments_resolve path)]
  refine ⟨put_ok, fun h => ?_⟩
  rw [put, edited_fault_iff]
  exact ⟨(), h⟩

section Sound

variable (hm : m.Sound)
include hm

theorem Sound.made (h : (m.makeDir path).fault? = none) :
    m.root.Made (m.makeDir path).machine.root (segments (m.resolve path)) := by
  rw [makeDir_machine]
  exact Folder.made_of_contents hm.ordered (Folder.ordered_makeDir hm.ordered _)
    (Folder.contents_makeDir (makeDir_ok h))

theorem Sound.written (h : (m.put path data).fault? = none) :
    m.root.Written (m.put path data).machine.root (segments (m.resolve path)) data := by
  rw [put_machine]
  exact Folder.written_of_contents hm.ordered (Folder.ordered_put hm.ordered _ _)
    (Folder.contents_put (m.segments_resolve path) (put_ok h))

theorem Sound.removed (path : Bytes) :
    m.root.Removed (m.remove path).1.root (segments (m.resolve path)) :=
  Folder.removed_of_contents hm.ordered (Folder.ordered_remove hm.ordered _)
    (Folder.contents_remove hm.ordered (m.segments_resolve path))

theorem Sound.makeDir_again (h : (m.makeDir path).fault? = none) :
    (m.makeDir path).machine.makeDir path = m.makeDir path := by
  have hedited : ∀ root : Folder, makeDir { m with root } path =
      m.edited (root.makeDir (m.resolve path)) fun _ => [.file (bytes "mkdir") (m.resolve path) []] :=
    fun root => edited_root m root _ _
  rw [makeDir_machine, hedited, Folder.makeDir_again hm.ordered (makeDir_ok h)]
  rfl

theorem Sound.put_again (h : (m.put path data).fault? = none) :
    (m.put path data).machine.put path data = m.put path data := by
  have hedited : ∀ root : Folder, put { m with root } path data =
      m.edited (root.put (m.resolve path) data) fun _ => [.file (bytes "write") (m.resolve path) []] :=
    fun root => edited_root m root _ _
  rw [put_machine, hedited, Folder.put_again hm.ordered (m.segments_resolve path) (put_ok h)]
  rfl

theorem Sound.remove_again (path : Bytes) : (m.remove path).1.remove path = m.remove path := by
  have hagain := Folder.remove_again hm.ordered (m.segments_resolve path)
  exact congrArg (fun root => ({ m with root }, _)) hagain

/-- What was resolved means itself. -/
theorem Sound.resolve_resolve (path : Bytes) (other : Machine) :
    other.resolve (m.resolve path) = m.resolve path :=
  resolve_isClean other (isClean_resolve hm.cwd path)

theorem Sound.read_put (h : (m.put path data).fault? = none) :
    (m.put path data).machine.read? (m.resolve path) = some data := by
  rw [read?, lookup, hm.resolve_resolve, (hm.written h).file]
  rfl

end Sound

/-- **What making, writing and removing do.** A directory is made exactly if no file is at its path or
above, and a file is written exactly if its path is not the root, no file is above it and no directory is
in its place. Removing has no way to fail. What is left is told place by place, nothing but the tree
changes, and whatever is done a second time goes through and changes nothing. -/
theorem file_operations_exactly (hm : m.Reachable) (habs : m.resolve path = abs) :
    (((m.makeDir path).fault? = none ↔
        ∀ part, part <+: segments abs → m.root.kinds part ≠ some .file) ∧
      ((m.makeDir path).fault? = none →
        m.root.Made (m.makeDir path).machine.root (segments abs) ∧
        (m.makeDir path).machine.makeDir path = m.makeDir path) ∧
      (m.makeDir path).machine = { m with root := (m.makeDir path).machine.root }) ∧
    (∀ data, ((m.put path data).fault? = none ↔
        abs ≠ Path.root ∧
        (∀ part, part <+: segments abs → part ≠ segments abs → m.root.kinds part ≠ some .file) ∧
        m.root.kinds (segments abs) ≠ some .dir) ∧
      ((m.put path data).fault? = none →
        m.root.Written (m.put path data).machine.root (segments abs) data ∧
        (m.put path data).machine.read? abs = some data ∧
        (m.put path data).machine.put path data = m.put path data) ∧
      (m.put path data).machine = { m with root := (m.put path data).machine.root }) ∧
    m.root.Removed (m.remove path).1.root (segments abs) ∧
    (abs = Path.root → (m.remove path).1.root = []) ∧
    (m.remove path).1.remove path = m.remove path ∧
    (m.remove path).1 = { m with root := (m.remove path).1.root } := by
  subst habs
  have hsound := hm.sound
  refine ⟨⟨makeDir_done_iff, fun h => ⟨hsound.made h, hsound.makeDir_again h⟩, ?_⟩, fun data => ?_, ?_⟩
  · rw [makeDir_machine]
  · refine ⟨put_done_iff, fun h => ⟨hsound.written h, hsound.read_put h, hsound.put_again h⟩, ?_⟩
    rw [put_machine]
  · exact ⟨hsound.removed path, fun htop => if_pos htop, hsound.remove_again path, rfl⟩

/-- A machine with one file. -/
def oneFile : Machine := zero.after [.put (bytes "/a/f") (bytes "x")]

/-- A file in the way lets no directory be made, and nothing be taken away; beside it, both can be done. -/
theorem file_operations_exactly_sample :
    oneFile.Reachable ∧
    (oneFile.makeDir (bytes "a/f/g")).fault? ≠ none ∧
    (oneFile.remove (bytes "a/f/g")).1.root.contents [bytes "a", bytes "f"] = some (.file (bytes "x")) ∧
    (oneFile.put (bytes "a/..//b/./c") (bytes "y")).fault? = none ∧
    (oneFile.put (bytes "a/..//b/./c") (bytes "y")).machine.read? (bytes "/b/c") = some (bytes "y") ∧
    (oneFile.put (bytes "a/..//b/./c") (bytes "y")).machine.root.walk [bytes "a"] =
      oneFile.root.walk [bytes "a"] ∧
    (oneFile.remove (bytes "a/../..")).1.root = [] := by
  have hreachable : oneFile.Reachable := ⟨.zero, _, rfl⟩
  have hbelow : oneFile.resolve (bytes "a/f/g") = bytes "/a/f/g" := by decide +kernel
  have hbeside : oneFile.resolve (bytes "a/..//b/./c") = bytes "/b/c" := by decide +kernel
  have htop : oneFile.resolve (bytes "a/../..") = Path.root := by decide +kernel
  obtain ⟨⟨hmake, -, -⟩, -, hremoved, -⟩ := file_operations_exactly hreachable hbelow
  obtain ⟨-, hput, -⟩ := file_operations_exactly hreachable hbeside
  obtain ⟨-, -, -, hempty, -⟩ := file_operations_exactly hreachable htop
  have hdone : (oneFile.put (bytes "a/..//b/./c") (bytes "y")).fault? = none := by decide +kernel
  obtain ⟨hwritten, hread, -⟩ := (hput (bytes "y")).2.1 hdone
  refine ⟨hreachable, ?_, ?_, hdone, hread, ?_, hempty rfl⟩
  · intro hmade
    exact hmake.1 hmade [bytes "a", bytes "f"] (by decide +kernel) (by decide +kernel)
  · rw [hremoved.kept _ (by decide +kernel)]
    decide +kernel
  · exact hwritten.elsewhere _ (by decide +kernel)

end Machine

end BuildScript
