import BuildScript.Proofs.Machine.Copy
import BuildScript.Proofs.Machine.Writing

/-!
# What a move does

A move goes through exactly if something is there to be moved and can land, and if it is not sent to below
itself. What has landed stands in place of all that was at the landing point, and so a directory that
lands on a directory takes the place of what was in it, even of the directory that it came from.

* `Folder.Moved`: what is at each place after a move.
* `move_of_find`: a move whose landing point is known. `move_ok_iff`, `moved_of_ok`: **when a move goes
  through, and what it leaves.**
* `move_exactly`: both together, for every machine that can be reached.
* `move_keeps_file_iff`: **which files are kept** when something is moved. `move_loses_file`: not all are.
-/

namespace BuildScript

open BuildScript.Path (segments landing IsProper ofNames)

namespace Folder

variable {root : Folder} {source target : Bytes} {s d : List Bytes} {found : Landing}

/-- What is left when all that was at the place `s` was moved to the place `d`. -/
structure Moved (before after : Folder) (s d : List Bytes) : Prop where
  placed : ∀ rest, after.walk (d ++ rest) = before.walk (s ++ rest)
  gone : ∀ other, s <+: other → ¬ d <+: other → after.walk other = none
  elsewhere : ∀ other, ¬ s <+: other → ¬ d <+: other → after.contents other = before.contents other

/-! ## When a move goes through -/

/-- The root is above every place. -/
theorem ne_nil_of_not_above (h : ¬ s <+: d) : s ≠ [] := by
  rintro rfl
  exact h List.nil_prefix

/-- What is there has a directory above it. -/
theorem parent_of_walk (hsource : segments source = landing source) {entry : Entry}
    (h : root.walk (segments source) = some entry) : ∃ holder, root.parent source = .ok holder := by
  rw [parent_ok_iff]
  by_contra hnone
  rw [hsource, landing, walk_append_of_ne_dir hnone (List.cons_ne_nil _ _)] at h
  cases h

/-- **A move whose landing point is known.** -/
theorem move_of_find (hsource : source ≠ Path.root → segments source = landing source)
    (hfind : Landing.find root source target = .ok found) :
    move source target root =
      if found.target = source then ⟨root, .ok found⟩
      else if source = Path.root ∨ isBelow found.target source = true then
        ⟨root, .error (.moveIntoSelf source found.target)⟩
      else ⟨found.place found.entry (remove source root), .ok found⟩ := by
  unfold move
  simp only [hfind, Bool.or_eq_true, decide_eq_true_eq]
  split
  · rfl
  · split
    · rfl
    · next hother =>
      have hne : source ≠ Path.root := fun htop => hother (Or.inl htop)
      obtain ⟨holder, hparent⟩ := parent_of_walk (hsource hne) (found_of_find hfind).entry
      rw [hparent]

section Places

variable (hs : ∀ n ∈ s, IsProper n) (hd : ∀ n ∈ d, IsProper n) (hne : s ≠ [] → d ≠ [])
  (hlands : Landing.targetPath root (ofNames s) target = ofNames d)
include hs

theorem segments_eq_landing (h : ofNames s ≠ Path.root) : segments (ofNames s) = landing (ofNames s) := by
  have htop : s ≠ [] := by
    rintro rfl
    exact h rfl
  rw [Path.segments_ofNames hs, Path.landing_ofNames htop hs]

include hd hlands

/-- A move whose landing point is known, by the names of the places. -/
theorem move_of_lands (hfind : Landing.find root (ofNames s) target = .ok found) :
    move (ofNames s) target root =
      if d = s then ⟨root, .ok found⟩
      else if s <+: d then ⟨root, .error (.moveIntoSelf (ofNames s) (ofNames d))⟩
      else ⟨found.place found.entry (remove (ofNames s) root), .ok found⟩ := by
  rw [move_of_find (segments_eq_landing hs) hfind, target_of_find hfind, hlands]
  by_cases hsame : d = s
  · rw [if_pos hsame, if_pos (congrArg ofNames hsame)]
  · have hother : ofNames d ≠ ofNames s := fun heq => hsame ((Path.ofNames_inj hd hs).1 heq)
    have hself := intoSelf_iff hs hd
    rw [or_iff_right hother] at hself
    rw [if_neg hsame, if_neg hother]
    simp only [hself]

/-- Among entries that can land, only one that is sent below itself is refused. -/
theorem move_ok_iff_find : (∃ found, (move (ofNames s) target root).result = .ok found) ↔
    (∃ found, Landing.find root (ofNames s) target = .ok found) ∧ (d = s ∨ ¬ s <+: d) := by
  cases hfind : Landing.find root (ofNames s) target with
  | error fault => simp [move, hfind]
  | ok found =>
    rw [move_of_lands hs hd hlands hfind]
    by_cases hsame : d = s
    · simp [hsame]
    · by_cases hself : s <+: d <;> simp [hsame, hself]

include hne

/-- The root is sent to itself in every tree in which no name is empty. -/
theorem find_ok_iff_canLand (hnamed : root.Named IsProper) (hself : d = s ∨ ¬ s <+: d) :
    (∃ found, Landing.find root (ofNames s) target = .ok found) ↔ CanLand root s d := by
  by_cases htop : s = []
  · subst htop
    obtain rfl : d = [] := hself.resolve_right (not_not_intro List.nil_prefix)
    have hplace : landing (Landing.targetPath root (ofNames []) target) = [[]] := by
      rw [hlands]
      decide
    have hempty : root.kinds [[]] = none := by
      have hnone : find? [] root = none := hnamed.find?_eq_none fun hproper => hproper.1.1 rfl
      rw [kinds_name, hnone]
      rfl
    rw [find_ok_iff hplace, Path.segments_ofNames hs]
    have hpresent : root.kinds [] ≠ none := by
      rw [kinds_nil]
      exact Option.some_ne_none _
    refine iff_of_true ⟨hpresent, kinds_nil root, fun a b _ hb => ?_⟩
      ⟨hpresent, kinds_nil root, fun a b ha hb => Option.some.inj (ha.symm.trans hb)⟩
    rw [hempty] at hb
    cases hb
  · have hplace : landing (Landing.targetPath root (ofNames s) target) = d := by
      rw [hlands, Path.landing_ofNames (hne htop) hd]
    rw [find_ok_iff hplace, Path.segments_ofNames hs]

/-- **When a move goes through.** -/
theorem move_ok_iff (hnamed : root.Named IsProper) :
    (∃ found, (move (ofNames s) target root).result = .ok found) ↔
      CanLand root s d ∧ (d = s ∨ ¬ s <+: d) := by
  rw [move_ok_iff_find hs hd hlands]
  exact and_congr_left (find_ok_iff_canLand hs hd hne hlands hnamed)

/-! ## What a move leaves -/

/-- What is at each place after a move that goes through. -/
theorem contents_move (hroot : root.ordered = true) (hself : ¬ s <+: d)
    (hfind : Landing.find root (ofNames s) target = .ok found) (other : List Bytes) :
    (found.place found.entry (remove (ofNames s) root)).contents other =
      if d <+: other then root.contents (s ++ other.drop d.length)
      else root.contents.removed s other := by
  have htop := ne_nil_of_not_above hself
  have hfound := found_of_find hfind
  have hplace := landing_of_find hd hne hlands htop hfind
  have hremoved : (remove (ofNames s) root).contents = root.contents.removed s := by
    rw [contents_remove hroot (segments_eq_landing hs), Path.segments_ofNames hs]
  -- the directory that receives the entry is not below what was taken away
  have hholder : (remove (ofNames s) root).kinds (segments (Path.splitLast found.target).1) =
      some .dir := by
    obtain ⟨folder, hwalk, -⟩ := hfound.holder
    have hout : ¬ s <+: segments (Path.splitLast found.target).1 := by
      intro hbelow
      rw [← hplace, landing] at hself
      exact hself (hbelow.trans (List.prefix_append _ _))
    rw [← contents_eq_dir_iff, hremoved, Contents.removed, if_neg fun hboth => hout hboth.1,
      contents_eq_dir_iff]
    exact kinds_of_walk hwalk
  rw [Landing.place]
  dsimp only
  rw [contents_insertAt hholder, hfound.contents_entry hs, hremoved]
  rw [landing] at hplace
  rw [hplace]
  rfl

/-- **What a move leaves.** -/
theorem moved_of_ok (hroot : root.ordered = true) (hsame : d ≠ s)
    (h : (move (ofNames s) target root).result = .ok found) :
    Moved root (move (ofNames s) target root).root s d := by
  obtain ⟨⟨other, hfind⟩, hself⟩ := (move_ok_iff_find hs hd hlands).1 ⟨found, h⟩
  have hself : ¬ s <+: d := hself.resolve_left hsame
  rw [move_of_lands hs hd hlands hfind, if_neg hsame, if_neg hself]
  have hcontents := contents_move hs hd hne hlands hroot hself hfind
  have hordered : (other.place other.entry (remove (ofNames s) root)).ordered = true :=
    ordered_place (ordered_remove hroot _) ((found_of_find hfind).entry_ordered hroot) other
  have htop := ne_nil_of_not_above hself
  constructor
  · have hplaced : ∀ rest, (other.place other.entry (remove (ofNames s) root)).contents (d ++ rest) =
        root.contents (s ++ rest) := by
      intro rest
      rw [hcontents, if_pos (List.prefix_append d rest), List.drop_left]
    intro rest
    refine walk_eq_of_contents hordered hroot fun more => ?_
    rw [List.append_assoc, List.append_assoc]
    exact hplaced (rest ++ more)
  · intro place hbelow hout
    have hnil : place ≠ [] := by
      rintro rfl
      exact htop (List.prefix_nil.1 hbelow)
    have hnone := hcontents place
    rw [if_neg hout, Contents.removed, if_pos ⟨hbelow, hnil⟩] at hnone
    exact Option.map_eq_none_iff.1 hnone
  · intro place habove hout
    rw [hcontents, if_neg hout, Contents.removed, if_neg fun hboth => habove hboth.1]

end Places

/-- **Which files a move keeps**: those at and below the landing point only if the same file comes to
their place. -/
theorem Moved.file_iff {after : Folder} (h : Moved root after s d) {place : List Bytes} {data : Bytes}
    (hfile : root.contents place = some (.file data)) (hout : ¬ s <+: place) :
    after.contents place = some (.file data) ↔
      ∀ rest, place = d ++ rest → root.contents (s ++ rest) = some (.file data) := by
  have hplaced : ∀ rest, after.contents (d ++ rest) = root.contents (s ++ rest) :=
    fun rest => congrArg (Option.map Entry.node) (h.placed rest)
  by_cases hbelow : d <+: place
  · obtain ⟨rest, rfl⟩ := hbelow
    rw [hplaced]
    constructor
    · intro hkept more hmore
      rwa [← List.append_cancel_left hmore]
    · intro hkept
      exact hkept rest rfl
  · rw [h.elsewhere place hout hbelow]
    refine iff_of_true hfile fun rest hrest => ?_
    exact absurd (hrest ▸ List.prefix_append d rest) hbelow

/-- What a file at or below the landing point says of what lands there. -/
theorem CanLand.of_file (h : CanLand root s d) {rest : List Bytes} {data : Bytes}
    (hfile : root.contents (d ++ rest) = some (.file data)) :
    (rest = [] ∧ root.kinds s = some .file) ∨ (root.kinds s = some .dir ∧ root.kinds d = some .dir) := by
  obtain ⟨kind, hkind⟩ := Option.ne_none_iff_exists'.1 h.present
  by_cases hdir : root.kinds d = some .dir
  · rw [h.sameKind _ _ hkind hdir] at hkind
    exact Or.inr ⟨hkind, hdir⟩
  · -- nothing is below what is not a directory
    have hend : rest = [] := by
      by_contra hmore
      have hnone := kinds_append_of_ne_dir hdir hmore
      rw [kinds_eq_contents, hfile] at hnone
      cases hnone
    rw [hend, List.append_nil] at hfile
    have hold : root.kinds d = some .file := by
      rw [kinds_eq_contents, hfile]
      rfl
    rw [h.sameKind _ _ hkind hold] at hkind
    exact Or.inl ⟨hend, hkind⟩

end Folder

namespace Machine

variable {m : Machine} {source target src dst : Bytes}

/-- No name in the tree of a machine that can be reached is empty, or means another place. -/
theorem Reachable.named (hm : m.Reachable) : m.root.Named IsProper := by
  obtain ⟨origin, operations, rfl⟩ := hm
  exact (tidy_after (fun _ _ _ hproper => hproper) (tidy_origin origin) operations).names

section Places

variable {s d : List Bytes} (h : Lands m source target s d)
include h

theorem Lands.move_machine : (m.move source target).machine =
    { m with root := (m.root.move (ofNames s) (m.resolve target)).root } := by
  rw [move, edited_machine, h.origin]

theorem Lands.move_fault_iff : (m.move source target).fault? = none ↔
    ∃ found, (m.root.move (ofNames s) (m.resolve target)).result = .ok found := by
  rw [move, edited_fault_iff, h.origin]

theorem Lands.move_done_iff (hm : m.Reachable) : (m.move source target).fault? = none ↔
    m.root.CanLand s d ∧ (d = s ∨ ¬ s <+: d) := by
  rw [h.move_fault_iff, Folder.move_ok_iff h.proper h.placeProper h.ne_nil h.targetPath hm.named]

theorem Lands.moved (hm : m.Sound) (hsame : d ≠ s) (hdone : (m.move source target).fault? = none) :
    m.root.Moved (m.move source target).machine.root s d := by
  obtain ⟨found, hfound⟩ := h.move_fault_iff.1 hdone
  rw [h.move_machine]
  exact Folder.moved_of_ok h.proper h.placeProper h.ne_nil h.targetPath hm.ordered hsame hfound

/-- What is sent to where it is stays there. -/
theorem Lands.move_same (hsame : d = s) (hdone : (m.move source target).fault? = none) :
    (m.move source target).machine = m := by
  have hok := h.move_fault_iff.1 hdone
  rw [Folder.move_ok_iff_find h.proper h.placeProper h.targetPath] at hok
  obtain ⟨⟨found, hfind⟩, -⟩ := hok
  rw [h.move_machine, Folder.move_of_lands h.proper h.placeProper h.targetPath hfind, if_pos hsame]

end Places

/-- **What a move does**, wherever the two places are. -/
theorem move_exactly (hm : m.Reachable) (hsrc : m.resolve source = src)
    (hdst : m.landsAt source target = dst) :
    ((m.move source target).fault? = none ↔
      m.root.CanLand (segments src) (segments dst) ∧
        (dst = src ∨ src ≠ Path.root ∧ ¬ Path.Within dst src)) ∧
    ((m.move source target).fault? = none →
      (dst = src → (m.move source target).machine = m) ∧
      (dst ≠ src →
        m.root.Moved (m.move source target).machine.root (segments src) (segments dst))) ∧
    (m.move source target).machine.cwd = m.cwd ∧ (m.move source target).machine.env = m.env ∧
    (m.move source target).machine.log = m.log := by
  obtain ⟨h, hs, hd⟩ := hm.lands hsrc hdst
  have hsame : dst = src ↔ segments dst = segments src := by
    rw [← Path.ofNames_inj h.placeProper h.proper, ← hs, ← hd]
  have hself : src ≠ Path.root ∧ ¬ Path.Within dst src ↔ ¬ segments src <+: segments dst := by
    refine ⟨And.right, fun hnot => ⟨?_, hnot⟩⟩
    rintro rfl
    exact hnot List.nil_prefix
  refine ⟨?_, fun hdone => ⟨fun heq => ?_, fun hne => ?_⟩, ?_, ?_, ?_⟩
  · rw [h.move_done_iff hm, hsame, hself]
  · exact h.move_same (hsame.1 heq) hdone
  · exact h.moved hm.sound (fun heq => hne (hsame.2 heq)) hdone
  · rw [h.move_machine]
  · rw [h.move_machine]
  · rw [h.move_machine]

/-- A machine with a directory in one of the same name. -/
def nested : Machine :=
  zero.after [.put (bytes "/d/s/s/x") (bytes "new"), .put (bytes "/d/s/k") (bytes "old")]

/-- A directory can take the place of the one that holds it. -/
theorem move_exactly_nested :
    nested.landsAt (bytes "d/s/./s") (bytes "/d") = bytes "/d/s" ∧
    Path.Within (bytes "/d/s/s") (bytes "/d/s") ∧
    (nested.move (bytes "d/s/./s") (bytes "/d")).fault? = none ∧
    nested.root.Moved (nested.move (bytes "d/s/./s") (bytes "/d")).machine.root
      [bytes "d", bytes "s", bytes "s"] [bytes "d", bytes "s"] ∧
    (nested.move (bytes "d/s/./s") (bytes "/d")).machine.root.contents
      [bytes "d", bytes "s", bytes "x"] = some (.file (bytes "new")) ∧
    (nested.move (bytes "d/s/./s") (bytes "/d")).machine.root.contents
      [bytes "d", bytes "s", bytes "s"] = none := by
  have hreachable : nested.Reachable := ⟨.zero, _, rfl⟩
  have hself : nested.resolve (bytes "d/s/./s") = bytes "/d/s/s" := by decide +kernel
  have hlands : nested.landsAt (bytes "d/s/./s") (bytes "/d") = bytes "/d/s" := by decide +kernel
  have hwithin : Path.Within (bytes "/d/s/s") (bytes "/d/s") := by decide +kernel
  have hdone : (nested.move (bytes "d/s/./s") (bytes "/d")).fault? = none := by decide +kernel
  obtain ⟨-, hmoved, -⟩ := move_exactly hreachable hself hlands
  have hs : segments (bytes "/d/s/s") = [bytes "d", bytes "s", bytes "s"] := by decide +kernel
  have hd : segments (bytes "/d/s") = [bytes "d", bytes "s"] := by decide +kernel
  rw [hs, hd] at hmoved
  exact ⟨hlands, hwithin, hdone, (hmoved hdone).2 (by decide +kernel), by decide +kernel,
    by decide +kernel⟩

/-- **Which files are kept.** A file outside of what is moved is kept unless something else comes to its
place. That happens where a file takes the place of a file, or where a directory takes the place of a
directory with all that is in it. -/
theorem move_keeps_file_iff (hm : m.Reachable) (hsrc : m.resolve source = src)
    (hdst : m.landsAt source target = dst) (hdone : (m.move source target).fault? = none)
    {place : List Bytes} {data : Bytes} (hfile : m.root.contents place = some (.file data))
    (hout : ¬ segments src <+: place) :
    ((m.move source target).machine.root.contents place = some (.file data) ↔
      ∀ rest, place = segments dst ++ rest →
        m.root.contents (segments src ++ rest) = some (.file data)) ∧
    ((m.move source target).machine.root.contents place ≠ some (.file data) →
      (place = segments dst ∧ m.root.kinds (segments src) = some .file) ∨
      (segments dst <+: place ∧
        m.root.kinds (segments src) = some .dir ∧ m.root.kinds (segments dst) = some .dir)) := by
  obtain ⟨h, -, -⟩ := hm.lands hsrc hdst
  have hcan := ((h.move_done_iff hm).1 hdone).1
  have hiff : (m.move source target).machine.root.contents place = some (.file data) ↔
      ∀ rest, place = segments dst ++ rest →
        m.root.contents (segments src ++ rest) = some (.file data) := by
    by_cases hsame : segments dst = segments src
    · rw [h.move_same hsame hdone]
      refine iff_of_true hfile fun rest hrest => ?_
      rwa [← hsame, ← hrest]
    · exact (h.moved hm.sound hsame hdone).file_iff hfile hout
  refine ⟨hiff, fun hlost => ?_⟩
  rw [Ne, hiff] at hlost
  push Not at hlost
  obtain ⟨rest, rfl, -⟩ := hlost
  refine (hcan.of_file hfile).imp (fun hend => ⟨?_, hend.2⟩) fun hdirs => ⟨List.prefix_append _ _, hdirs⟩
  rw [hend.1, List.append_nil]

/-- A machine with a file in the directory to which another one of the same name can be moved. -/
def populated : Machine :=
  zero.after [.put (bytes "/s/x") (bytes "new"), .put (bytes "/d/s/k") (bytes "kept")]

/-- The tree of `populated` after `/s` was sent to `/d`. -/
def populatedMoved : Folder := (populated.move (bytes "/s") (bytes "/d")).machine.root

theorem move_keeps_file_iff_populated :
    (populated.move (bytes "/s") (bytes "/d")).fault? = none ∧
    populated.root.contents [bytes "d", bytes "s", bytes "k"] = some (.file (bytes "kept")) ∧
    (populatedMoved.contents [bytes "d", bytes "s", bytes "k"] = some (.file (bytes "kept")) ↔
      ∀ rest, [bytes "d", bytes "s", bytes "k"] = segments (bytes "/d/s") ++ rest →
        populated.root.contents (segments (bytes "/s") ++ rest) = some (.file (bytes "kept"))) ∧
    (populatedMoved.contents [bytes "d", bytes "s", bytes "k"] ≠ some (.file (bytes "kept")) →
      ([bytes "d", bytes "s", bytes "k"] = segments (bytes "/d/s") ∧
        populated.root.kinds (segments (bytes "/s")) = some .file) ∨
      (segments (bytes "/d/s") <+: [bytes "d", bytes "s", bytes "k"] ∧
        populated.root.kinds (segments (bytes "/s")) = some .dir ∧
        populated.root.kinds (segments (bytes "/d/s")) = some .dir)) := by
  have hreachable : populated.Reachable := ⟨.zero, _, rfl⟩
  have hself : populated.resolve (bytes "/s") = bytes "/s" := by decide +kernel
  have hlands : populated.landsAt (bytes "/s") (bytes "/d") = bytes "/d/s" := by decide +kernel
  have hdone : (populated.move (bytes "/s") (bytes "/d")).fault? = none := by decide +kernel
  have hfile : populated.root.contents [bytes "d", bytes "s", bytes "k"] = some (.file (bytes "kept")) := by
    decide +kernel
  exact ⟨hdone, hfile, move_keeps_file_iff hreachable hself hlands hdone hfile (by decide +kernel)⟩

/-- **A move can lose a file** that is not at the landing point. -/
theorem move_loses_file :
    populated.Reachable ∧ populated.landsAt (bytes "/s") (bytes "/d") = bytes "/d/s" ∧
    (populated.move (bytes "/s") (bytes "/d")).fault? = none ∧
    ¬ Path.Within (bytes "/d/s/k") (bytes "/s") ∧
    populated.root.contents (segments (bytes "/d/s/k")) = some (.file (bytes "kept")) ∧
    populatedMoved.contents (segments (bytes "/d/s/k")) = none :=
  ⟨⟨.zero, _, rfl⟩, by decide +kernel, by decide +kernel, by decide +kernel, by decide +kernel,
    by decide +kernel⟩

end Machine

end BuildScript
