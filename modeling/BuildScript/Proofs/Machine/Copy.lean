import BuildScript.Proofs.Files.Changes
import BuildScript.Proofs.Machine.Landing
import BuildScript.Proofs.Machine.Leads

/-!
# What a copy does

A copy goes through exactly if something is there to be copied and can land, and if no directory is
copied to itself or to below itself. What is there afterwards is told place by place.

* `Folder.Copied`: what is at each place after a copy.
* `copy_ok_iff`, `copied_of_ok`: **when a copy goes through, and what it leaves.**
* `copy_exactly`: both together, for every machine that can be reached.
* `copy_keeps_kind_iff`: **what keeps its kind** when something is copied. `copy_replaces_directory`: not
  all does.
* `copy_again`: **a copy into a directory done twice is done once.**
-/

namespace BuildScript

open BuildScript.Path (segments landing IsProper ofNames)

/-- A path is another one or below it. -/
def Path.Within (p above : Bytes) : Prop := segments above <+: segments p

instance (p above : Bytes) : Decidable (Path.Within p above) :=
  inferInstanceAs (Decidable (segments above <+: segments p))

namespace Folder

variable {root : Folder} {source target : Bytes} {s d : List Bytes} {found : Landing}

/-- The contents of a tree after a copy of what is at the place `s`, which landed at the place `d`. -/
structure Copied (before after : Folder) (s d : List Bytes) : Prop where
  elsewhere : ∀ other, ¬ d <+: other → after.contents other = before.contents other
  source : ∀ rest, after.contents (s ++ rest) = before.contents (s ++ rest)
  merged : before.contents s = some .dir → before.contents d = some .dir → ∀ rest,
    after.contents (d ++ rest) = (before.contents.below s).merged (before.contents.below d) rest
  replaced : ¬ (before.contents s = some .dir ∧ before.contents d = some .dir) → ∀ rest,
    after.contents (d ++ rest) = before.contents (s ++ rest)

/-- Two directories are merged, or what is at the landing point is not a directory. -/
theorem CanLand.not_dir (h : CanLand root s d)
    (hboth : ¬ (root.contents s = some .dir ∧ root.contents d = some .dir)) :
    root.kinds d ≠ some .dir := by
  intro hdir
  obtain ⟨kind, hkind⟩ := Option.ne_none_iff_exists'.1 h.present
  rw [h.sameKind _ _ hkind hdir] at hkind
  exact hboth ⟨contents_eq_dir_iff.2 hkind, contents_eq_dir_iff.2 hdir⟩

/-! ## When a copy goes through -/

/-- A path is the other one, or that one is the root, or it is below the other one. -/
theorem intoSelf_iff (hs : ∀ n ∈ s, IsProper n) (hd : ∀ n ∈ d, IsProper n) :
    (ofNames d = ofNames s ∨ ofNames s = Path.root ∨ isBelow (ofNames d) (ofNames s) = true) ↔
      s <+: d := by
  have hnone : ∀ n ∈ ([] : List Bytes), IsProper n := nofun
  have hroot : ofNames s = Path.root ↔ s = [] := Path.ofNames_inj hs hnone
  by_cases hne : s = []
  · have htop : ofNames s = Path.root := hroot.2 hne
    rw [hne] at htop ⊢
    exact ⟨fun _ => List.nil_prefix, fun _ => Or.inr (Or.inl htop)⟩
  · rw [Path.ofNames_inj hd hs, hroot, isBelow, Path.startsWith_ofNames hne hs hd]
    constructor
    · rintro (rfl | hnil | ⟨hbelow, -⟩)
      · exact List.prefix_rfl
      · exact absurd hnil hne
      · exact hbelow
    · intro hbelow
      by_cases heq : d = s
      · exact Or.inl heq
      · exact Or.inr (Or.inr ⟨hbelow, heq⟩)

/-- A copy that goes through found a landing point, and has put the entry there. -/
theorem copy_eq_ok_iff : (copy source target root).result = .ok found ↔
    Landing.find root source target = .ok found ∧
      ¬ (found.entry.isDir = true ∧
        (found.target = source ∨ source = Path.root ∨ isBelow found.target source = true)) := by
  unfold copy
  cases Landing.find root source target with
  | error fault => simp
  | ok other =>
    dsimp only
    split
    · next hself =>
      simp only [Bool.and_eq_true, Bool.or_eq_true, decide_eq_true_eq] at hself
      simp only [reduceCtorEq, Except.ok.injEq, false_iff]
      rintro ⟨rfl, hnot⟩
      exact hnot ⟨hself.1, by tauto⟩
    · next hself =>
      simp only [Bool.and_eq_true, Bool.or_eq_true, decide_eq_true_eq] at hself
      simp only [Except.ok.injEq, iff_self_and]
      rintro rfl ⟨hdir, hwhere⟩
      exact hself ⟨hdir, by tauto⟩

theorem copy_root (h : (copy source target root).result = .ok found) :
    (copy source target root).root = found.place (overlay found.entry found.old?) root := by
  obtain ⟨hfind, hself⟩ := copy_eq_ok_iff.1 h
  unfold copy
  simp only [hfind]
  rw [if_neg]
  simp only [Bool.and_eq_true, Bool.or_eq_true, decide_eq_true_eq]
  tauto

theorem Found.contents_entry (h : Found root (ofNames s) found) (hs : ∀ n ∈ s, IsProper n) :
    found.entry.contents = root.contents.below s := by
  have hwalk := h.entry
  rw [Path.segments_ofNames hs] at hwalk
  exact (contents_below hwalk).symm

section Places

variable (hs : ∀ n ∈ s, IsProper n) (hd : ∀ n ∈ d, IsProper n) (hne : s ≠ [] → d ≠ [])
  (hlands : Landing.targetPath root (ofNames s) target = ofNames d)
include hs hd hlands

/-- Among entries that can land, only a directory sent to itself or below itself is refused. -/
theorem copy_ok_iff_find : (∃ found, (copy (ofNames s) target root).result = .ok found) ↔
    (∃ found, Landing.find root (ofNames s) target = .ok found) ∧
      ¬ (root.kinds s = some .dir ∧ s <+: d) := by
  have hentry : ∀ {found}, Landing.find root (ofNames s) target = .ok found →
      ((found.entry.isDir = true ∧ (found.target = ofNames s ∨ ofNames s = Path.root ∨
        isBelow found.target (ofNames s) = true)) ↔ root.kinds s = some .dir ∧ s <+: d) := by
    intro found hfind
    have hwalk := (found_of_find hfind).entry
    rw [Path.segments_ofNames hs] at hwalk
    have hdir : found.entry.isDir = true ↔ root.kinds s = some .dir := by
      rw [kinds_of_walk hwalk]
      cases found.entry <;> simp [Entry.isDir, Entry.kind]
    rw [target_of_find hfind, hlands, intoSelf_iff hs hd, hdir]
  constructor
  · rintro ⟨found, h⟩
    obtain ⟨hfind, hself⟩ := copy_eq_ok_iff.1 h
    exact ⟨⟨found, hfind⟩, fun hinto => hself ((hentry hfind).2 hinto)⟩
  · rintro ⟨⟨found, hfind⟩, hself⟩
    exact ⟨found, copy_eq_ok_iff.2 ⟨hfind, fun hinto => hself ((hentry hfind).1 hinto)⟩⟩

include hne

/-- **When a copy goes through.** -/
theorem copy_ok_iff : (∃ found, (copy (ofNames s) target root).result = .ok found) ↔
    CanLand root s d ∧ (root.kinds s = some .dir → s ≠ [] ∧ ¬ s <+: d) := by
  rw [copy_ok_iff_find hs hd hlands]
  by_cases htop : s = []
  · -- the root is a directory, and everything is below it
    subst htop
    constructor
    · rintro ⟨-, hself⟩
      exact absurd ⟨kinds_nil root, List.nil_prefix⟩ hself
    · rintro ⟨-, hself⟩
      exact absurd rfl (hself (kinds_nil root)).1
  · have hplace : landing (Landing.targetPath root (ofNames s) target) = d := by
      rw [hlands, Path.landing_ofNames (hne htop) hd]
    rw [find_ok_iff hplace, Path.segments_ofNames hs, not_and]
    simp only [ne_eq, htop, not_false_eq_true, true_and]

omit hs in
/-- The landing point that was found, by its names. -/
theorem landing_of_find (htop : s ≠ []) (hfind : Landing.find root (ofNames s) target = .ok found) :
    landing found.target = d := by
  rw [target_of_find hfind, hlands, Path.landing_ofNames (hne htop) hd]

/-! ## What a copy leaves -/

/-- What is at each place after a copy that goes through. -/
theorem contents_copy (hroot : root.ordered = true)
    (h : (copy (ofNames s) target root).result = .ok found) (other : List Bytes) :
    (copy (ofNames s) target root).root.contents other =
      if d <+: other then
        (root.contents.below s).merged (root.contents.below d) (other.drop d.length)
      else root.contents other := by
  have hcan := (copy_ok_iff hs hd hne hlands).1 ⟨found, h⟩
  have htop : s ≠ [] := by
    rintro rfl
    exact (hcan.2 (kinds_nil root)).1 rfl
  obtain ⟨hfind, -⟩ := copy_eq_ok_iff.1 h
  have hfound := found_of_find hfind
  have hplace := landing_of_find hd hne hlands htop hfind
  have hholder : root.kinds (segments (Path.splitLast found.target).1) = some .dir := by
    obtain ⟨folder, hwalk, -⟩ := hfound.holder
    exact kinds_of_walk hwalk
  have hsource := hfound.contents_entry hs
  have hold : (fun rest => found.old?.bind (·.contents rest)) = root.contents.below d := by
    rw [← hplace]
    funext rest
    refine Eq.trans ?_ (congrArg (Option.map Entry.node) (hfound.walk_old rest))
    cases found.old? <;> rfl
  rw [copy_root h, Landing.place]
  dsimp only
  rw [contents_insertAt hholder, contents_overlay (hfound.entry_ordered hroot), hsource, hold]
  rw [landing] at hplace
  rw [hplace]

/-- **What a copy leaves**, unless it lands above the place that it comes from. -/
theorem copied_of_ok (hroot : root.ordered = true) (hbeside : d <+: s → d = s)
    (h : (copy (ofNames s) target root).result = .ok found) :
    Copied root (copy (ofNames s) target root).root s d := by
  obtain ⟨hcan, hself⟩ := (copy_ok_iff hs hd hne hlands).1 ⟨found, h⟩
  have hcontents := contents_copy hs hd hne hlands hroot h
  have helsewhere : ∀ other, ¬ d <+: other →
      (copy (ofNames s) target root).root.contents other = root.contents other := by
    intro other hother
    rw [hcontents, if_neg hother]
  have hplaced : ∀ rest, (copy (ofNames s) target root).root.contents (d ++ rest) =
      (root.contents.below s).merged (root.contents.below d) rest := by
    intro rest
    rw [hcontents, if_pos (List.prefix_append d rest), List.drop_left]
  have hreplaced : ¬ (root.contents s = some .dir ∧ root.contents d = some .dir) → ∀ rest,
      (copy (ofNames s) target root).root.contents (d ++ rest) = root.contents (s ++ rest) := by
    intro hboth rest
    have hno : ∀ part, root.contents.below d part ≠ some .dir :=
      contents_append_ne_dir (hcan.not_dir hboth)
    rw [hplaced, Contents.merged_of_no_dir hno]
    rfl
  refine ⟨helsewhere, fun rest => ?_, fun _ _ => hplaced, hreplaced⟩
  by_cases hmeets : d <+: s ++ rest
  · -- the two places meet only if a file is copied to itself
    have heq : d = s := by
      rcases List.prefix_or_prefix_of_prefix hmeets (List.prefix_append s rest) with habove | hbelow
      · exact hbeside habove
      · obtain ⟨more, rfl⟩ := hbelow
        by_contra hlonger
        have hmore : more ≠ [] := fun hnil => hlonger (by rw [hnil, List.append_nil])
        have hdir : root.kinds s = some .dir := by
          by_contra hfile
          have hholder := hcan.holder
          rw [List.dropLast_append_of_ne_nil hmore, ← contents_eq_dir_iff] at hholder
          exact contents_append_ne_dir hfile _ hholder
        exact (hself hdir).2 (List.prefix_append s more)
    have hfile : root.kinds s ≠ some .dir := fun hdir => (hself hdir).2 (heq ▸ List.prefix_rfl)
    rw [heq] at hreplaced
    exact hreplaced (fun hboth => hfile (contents_eq_dir_iff.1 hboth.1)) rest
  · exact helsewhere _ hmeets

/-! ## A second copy -/

/-- The source after a copy is what it was before, and what landed is the source, merged into what was
there. -/
theorem below_copy (hroot : root.ordered = true) (hbeside : d <+: s → d = s)
    (h : (copy (ofNames s) target root).result = .ok found) :
    (copy (ofNames s) target root).root.contents.below s = root.contents.below s ∧
      (copy (ofNames s) target root).root.contents.below d =
        (root.contents.below s).merged (root.contents.below d) := by
  constructor
  · funext rest
    exact (copied_of_ok hs hd hne hlands hroot hbeside h).source rest
  · funext rest
    rw [Contents.below, contents_copy hs hd hne hlands hroot h, if_pos (List.prefix_append d rest),
      List.drop_left]

/-- A second copy that lands where the first one did changes nothing. -/
theorem copy_copy_root (hroot : root.ordered = true) (hbeside : d <+: s → d = s)
    (h : (copy (ofNames s) target root).result = .ok found) {after : Folder} {again : Landing}
    (hafter : after = (copy (ofNames s) target root).root)
    (hlands' : Landing.targetPath after (ofNames s) target = ofNames d)
    (h' : (copy (ofNames s) target after).result = .ok again) :
    (copy (ofNames s) target after).root = after := by
  have hordered : after.ordered = true := by
    rw [hafter]
    exact (effect_copy hroot _ _).ordered
  obtain ⟨hsource, hplace⟩ := below_copy hs hd hne hlands hroot hbeside h
  rw [← hafter] at hsource hplace
  apply eq_of_contents _ _ (effect_copy hordered _ _).ordered hordered
  funext other
  rw [contents_copy hs hd hne hlands' hordered h', hsource, hplace, Contents.merged_merged, ← hplace]
  split
  · next hbelow =>
    obtain ⟨rest, rfl⟩ := hbelow
    rw [List.drop_left]
    rfl
  · rfl

end Places

theorem Copied.kinds_source {after : Folder} (h : Copied root after s d) :
    after.kinds s = root.kinds s := by
  have hcontents := h.source []
  rw [List.append_nil] at hcontents
  rw [kinds_eq_contents, hcontents, ← kinds_eq_contents]

/-- What landed can land there again. -/
theorem Copied.canLand {after : Folder} (h : Copied root after s d) (hcan : CanLand root s d)
    (hne : d ≠ []) : CanLand after s d := by
  have hplace : after.kinds d = root.kinds s := by
    rw [kinds_eq_contents, kinds_eq_contents]
    by_cases hboth : root.contents s = some .dir ∧ root.contents d = some .dir
    · have hmerged := h.merged hboth.1 hboth.2 []
      have htop : root.contents.below s [] = some .dir := by
        rw [Contents.below, List.append_nil, hboth.1]
      rw [List.append_nil, Contents.merged, htop] at hmerged
      rw [hmerged, hboth.1]
    · have hreplaced := h.replaced hboth []
      rw [List.append_nil, List.append_nil] at hreplaced
      rw [hreplaced]
  have habove : ¬ d <+: d.dropLast := by
    intro hpre
    have hlength := hpre.length_le
    have hpos := List.length_pos_of_ne_nil hne
    rw [List.length_dropLast] at hlength
    omega
  constructor
  · rw [h.kinds_source]
    exact hcan.present
  · rw [kinds_eq_contents, h.elsewhere _ habove, ← kinds_eq_contents]
    exact hcan.holder
  · intro a b ha hb
    rw [h.kinds_source] at ha
    rw [hplace, ha] at hb
    exact Option.some.inj hb

theorem agreeAt_below_iff (folder : Folder) (s d rest : List Bytes) :
    (folder.contents.below s).AgreeAt (folder.contents.below d) rest ↔ ∀ a b,
      folder.kinds (s ++ rest) = some a → folder.kinds (d ++ rest) = some b → a = b := by
  simp only [kinds_eq_contents, Option.map_eq_some_iff]
  constructor
  · rintro h _ _ ⟨a, ha, rfl⟩ ⟨b, hb, rfl⟩
    exact h a b ha hb
  · intro h a b ha hb
    exact h _ _ ⟨a, ha, rfl⟩ ⟨b, hb, rfl⟩

/-- **What a copy leaves of what was there**: it keeps its kind exactly if from the landing point down to
it nothing of one kind meets something of the other. -/
theorem Copied.kind_iff {after : Folder} (h : Copied root after s d) (hcan : CanLand root s d)
    {place : List Bytes} {kind : Kind} (hkind : root.kinds place = some kind) :
    after.kinds place = some kind ↔ ∀ rest, d ++ rest <+: place → ∀ a b,
      root.kinds (s ++ rest) = some a → root.kinds (d ++ rest) = some b → a = b := by
  by_cases hbelow : d <+: place
  · obtain ⟨more, rfl⟩ := hbelow
    simp only [List.prefix_append_right_inj]
    by_cases hboth : root.contents s = some .dir ∧ root.contents d = some .dir
    · obtain ⟨node, hnode, rfl⟩ : ∃ node, root.contents (d ++ more) = some node ∧ node.kind = kind := by
        rwa [kinds_eq_contents, Option.map_eq_some_iff] at hkind
      have htop : (root.contents.below s []).isSome = true := by
        rw [Contents.below, List.append_nil, hboth.1]
        rfl
      have hmerged := Contents.merged_kind_iff (isTree_below root s) (isTree_below root d) htop hnode
      rw [kinds_eq_contents, h.merged hboth.1 hboth.2, hmerged]
      simp only [agreeAt_below_iff]
    · -- no directory is at the landing point, so nothing is below it
      have hend : more = [] := by
        by_contra hmore
        rw [kinds_append_of_ne_dir (hcan.not_dir hboth) hmore] at hkind
        cases hkind
      subst hend
      obtain ⟨new, hnew⟩ := Option.ne_none_iff_exists'.1 hcan.present
      have hsame : new = kind := by
        rw [List.append_nil] at hkind
        exact hcan.sameKind _ _ hnew hkind
      rw [kinds_eq_contents, h.replaced hboth, ← kinds_eq_contents, List.append_nil, hnew, hsame]
      refine iff_of_true rfl fun rest hrest => ?_
      rw [List.prefix_nil.1 hrest, List.append_nil, List.append_nil]
      exact hcan.sameKind
  · rw [kinds_eq_contents, h.elsewhere place hbelow, ← kinds_eq_contents]
    exact iff_of_true hkind fun rest hrest =>
      absurd ((List.prefix_append d rest).trans hrest) hbelow

end Folder

namespace Machine

variable {m : Machine} {source target src dst : Bytes}

section Places

variable {s d : List Bytes} (h : Lands m source target s d)
include h

theorem Lands.targetPath :
    Landing.targetPath m.root (ofNames s) (m.resolve target) = ofNames d := by
  rw [← h.place, landsAt_eq, h.origin]

theorem Lands.copy_machine : (m.copy source target).machine =
    { m with root := (m.root.copy (ofNames s) (m.resolve target)).root } := by
  rw [copy, edited_machine, h.origin]

theorem Lands.copy_fault_iff : (m.copy source target).fault? = none ↔
    ∃ found, (m.root.copy (ofNames s) (m.resolve target)).result = .ok found := by
  rw [copy, edited_fault_iff, h.origin]

theorem Lands.copy_done_iff : (m.copy source target).fault? = none ↔
    m.root.CanLand s d ∧ (m.root.kinds s = some .dir → s ≠ [] ∧ ¬ s <+: d) := by
  rw [h.copy_fault_iff, Folder.copy_ok_iff h.proper h.placeProper h.ne_nil h.targetPath]

theorem Lands.copied (hm : m.Sound) (hbeside : d <+: s → d = s)
    (hdone : (m.copy source target).fault? = none) :
    m.root.Copied (m.copy source target).machine.root s d := by
  obtain ⟨found, hfound⟩ := h.copy_fault_iff.1 hdone
  rw [h.copy_machine]
  exact Folder.copied_of_ok h.proper h.placeProper h.ne_nil h.targetPath hm.ordered hbeside hfound

end Places

/-- The paths that a copy works with, as rows of names. -/
theorem Reachable.lands (hm : m.Reachable) (hsrc : m.resolve source = src)
    (hdst : m.landsAt source target = dst) :
    Lands m source target (segments src) (segments dst) ∧
      src = ofNames (segments src) ∧ dst = ofNames (segments dst) := by
  obtain ⟨s, d, h⟩ := hm.sound.lands source target
  rw [← hsrc, ← hdst, h.origin, h.place, Path.segments_ofNames h.proper,
    Path.segments_ofNames h.placeProper]
  exact ⟨h, rfl, rfl⟩

/-- **What a copy does.** The landing point is not above what is copied. -/
theorem copy_exactly (hm : m.Reachable) (hsrc : m.resolve source = src)
    (hdst : m.landsAt source target = dst) (hbeside : Path.Within src dst → src = dst) :
    ((m.copy source target).fault? = none ↔
      m.root.CanLand (segments src) (segments dst) ∧
        (m.root.kinds (segments src) = some .dir → src ≠ Path.root ∧ ¬ Path.Within dst src)) ∧
    ((m.copy source target).fault? = none →
      m.root.Copied (m.copy source target).machine.root (segments src) (segments dst)) ∧
    (m.copy source target).machine.cwd = m.cwd ∧ (m.copy source target).machine.env = m.env ∧
    (m.copy source target).machine.log = m.log := by
  obtain ⟨h, hs, hd⟩ := hm.lands hsrc hdst
  have htop : src = Path.root ↔ segments src = [] := by
    have hnone : ∀ n ∈ ([] : List Bytes), IsProper n := nofun
    rw [← Path.ofNames_inj h.proper hnone, ← hs]
    rfl
  refine ⟨?_, ?_, ?_, ?_, ?_⟩
  · rw [h.copy_done_iff, Ne, Ne, htop, Path.Within]
  · exact h.copied hm.sound fun hbelow => congrArg segments (hbeside hbelow).symm
  · rw [h.copy_machine]
  · rw [h.copy_machine]
  · rw [h.copy_machine]

/-- A machine with two trees, `/s` and `/d/s`, of which one has a file where the other has a
directory. -/
def twoTrees : Machine :=
  zero.after [.put (bytes "/s/x") (bytes "new"), .put (bytes "/d/s/k") (bytes "kept"),
    .makeDir (bytes "/d/s/x/y")]

/-- The tree of `twoTrees` after `/s` was sent to `/d`, where it is merged into `/d/s`. -/
def twoTreesMerged : Folder := (twoTrees.copy (bytes "/s") (bytes "/d")).machine.root

theorem twoTrees_reachable : twoTrees.Reachable := ⟨.zero, _, rfl⟩

theorem copy_exactly_merge :
    twoTrees.landsAt (bytes "/s") (bytes "/d") = bytes "/d/s" ∧
    ¬ Path.Within (bytes "/s") (bytes "/d/s") ∧
    (twoTrees.copy (bytes "/s") (bytes "/d")).fault? = none ∧
    twoTrees.root.Copied twoTreesMerged [bytes "s"] [bytes "d", bytes "s"] ∧
    twoTreesMerged.contents [bytes "d", bytes "s", bytes "x"] = some (.file (bytes "new")) ∧
    twoTreesMerged.contents [bytes "d", bytes "s", bytes "x", bytes "y"] = none ∧
    twoTreesMerged.contents [bytes "d", bytes "s", bytes "k"] = some (.file (bytes "kept")) := by
  have hlands : twoTrees.landsAt (bytes "/s") (bytes "/d") = bytes "/d/s" := by decide +kernel
  have hnot : ¬ Path.Within (bytes "/s") (bytes "/d/s") := by decide +kernel
  have hdone : (twoTrees.copy (bytes "/s") (bytes "/d")).fault? = none := by decide +kernel
  have hself : twoTrees.resolve (bytes "/s") = bytes "/s" := by decide +kernel
  obtain ⟨-, hcopied, -⟩ :=
    copy_exactly twoTrees_reachable hself hlands fun hbelow => absurd hbelow hnot
  have hs : segments (bytes "/s") = [bytes "s"] := by decide +kernel
  have hd : segments (bytes "/d/s") = [bytes "d", bytes "s"] := by decide +kernel
  rw [hs, hd] at hcopied
  exact ⟨hlands, hnot, hdone, hcopied hdone, by decide +kernel, by decide +kernel, by decide +kernel⟩

/-- **What a copy keeps.** All that is not strictly below the landing point keeps its kind. What is below
it does exactly if on the way to it nothing of one kind meets something of the other. -/
theorem copy_keeps_kind_iff (hm : m.Reachable) (hsrc : m.resolve source = src)
    (hdst : m.landsAt source target = dst) (hbeside : Path.Within src dst → src = dst)
    (hdone : (m.copy source target).fault? = none) {place : List Bytes} {kind : Kind}
    (hkind : m.root.kinds place = some kind) :
    (¬ (segments dst <+: place ∧ segments dst ≠ place) →
      (m.copy source target).machine.root.kinds place = some kind) ∧
    ((m.copy source target).machine.root.kinds place = some kind ↔
      ∀ rest, segments dst ++ rest <+: place → ∀ a b,
        m.root.kinds (segments src ++ rest) = some a →
        m.root.kinds (segments dst ++ rest) = some b → a = b) := by
  obtain ⟨h, -, -⟩ := hm.lands hsrc hdst
  have hcan := (h.copy_done_iff.1 hdone).1
  have hcopied := h.copied hm.sound (fun hbelow => congrArg segments (hbeside hbelow).symm) hdone
  have hiff := hcopied.kind_iff hcan hkind
  refine ⟨fun hnot => hiff.2 fun rest hrest => ?_, hiff⟩
  -- the only place to look at is the landing point
  have hplace : segments dst = place := by
    by_contra hne
    exact hnot ⟨(List.prefix_append _ rest).trans hrest, hne⟩
  have hnil : rest = [] := by
    rw [← hplace] at hrest
    have hlength := hrest.length_le
    rw [List.length_append] at hlength
    exact List.length_eq_zero_iff.1 (by omega)
  rw [hnil, List.append_nil, List.append_nil]
  exact hcan.sameKind

theorem copy_keeps_kind_iff_merge :
    (twoTrees.copy (bytes "/s") (bytes "/d")).fault? = none ∧
    twoTrees.root.kinds [bytes "d"] = some .dir ∧ twoTreesMerged.kinds [bytes "d"] = some .dir ∧
    twoTrees.root.kinds [bytes "d", bytes "s", bytes "k"] = some .file ∧
    (twoTreesMerged.kinds [bytes "d", bytes "s", bytes "k"] = some .file ↔
      ∀ rest, segments (bytes "/d/s") ++ rest <+: [bytes "d", bytes "s", bytes "k"] → ∀ a b,
        twoTrees.root.kinds (segments (bytes "/s") ++ rest) = some a →
        twoTrees.root.kinds (segments (bytes "/d/s") ++ rest) = some b → a = b) := by
  have hdone : (twoTrees.copy (bytes "/s") (bytes "/d")).fault? = none := by decide +kernel
  have hnot : ¬ Path.Within (bytes "/s") (bytes "/d/s") := by decide +kernel
  have hdir : twoTrees.root.kinds [bytes "d"] = some .dir := by decide +kernel
  have hfile : twoTrees.root.kinds [bytes "d", bytes "s", bytes "k"] = some .file := by decide +kernel
  have hself : twoTrees.resolve (bytes "/s") = bytes "/s" := by decide +kernel
  have hlands : twoTrees.landsAt (bytes "/s") (bytes "/d") = bytes "/d/s" := by decide +kernel
  have hkept {place : List Bytes} {kind : Kind} (hkind : twoTrees.root.kinds place = some kind) :=
    copy_keeps_kind_iff twoTrees_reachable hself hlands (fun hbelow => absurd hbelow hnot) hdone hkind
  exact ⟨hdone, hdir, (hkept hdir).1 (by decide +kernel), hfile, (hkept hfile).2⟩

/-- **A copy can replace a directory by a file**, and what was in the directory is gone. -/
theorem copy_replaces_directory :
    twoTrees.Reachable ∧ ¬ Path.Within (bytes "/s") (twoTrees.landsAt (bytes "/s") (bytes "/d")) ∧
    (twoTrees.copy (bytes "/s") (bytes "/d")).fault? = none ∧
    twoTrees.root.kinds [bytes "d", bytes "s", bytes "x"] = some .dir ∧
    twoTreesMerged.kinds [bytes "d", bytes "s", bytes "x"] = some .file ∧
    twoTrees.root.kinds [bytes "d", bytes "s", bytes "x", bytes "y"] = some .dir ∧
    twoTreesMerged.kinds [bytes "d", bytes "s", bytes "x", bytes "y"] = none :=
  ⟨twoTrees_reachable, by decide +kernel, by decide +kernel, by decide +kernel, by decide +kernel,
    by decide +kernel, by decide +kernel⟩

/-! ## A second copy -/

section Again

variable {s d : List Bytes} (h : Lands m source target s d)
include h

/-- A copy that goes through, with what it reports. -/
theorem Lands.copy_eq (hdone : (m.copy source target).fault? = none) :
    m.copy source target = ⟨{ m with root := (m.root.copy (ofNames s) (m.resolve target)).root },
      [.file (bytes "cp") (ofNames s) (ofNames d)], none⟩ := by
  obtain ⟨found, hfound⟩ := h.copy_fault_iff.1 hdone
  have hfind := (Folder.copy_eq_ok_iff.1 hfound).1
  have horigin := (Folder.found_of_find hfind).origin
  have htarget := (Folder.target_of_find hfind).trans h.targetPath
  rw [copy, h.origin]
  generalize m.root.copy (ofNames s) (m.resolve target) = edit at hfound ⊢
  obtain ⟨root, result⟩ := edit
  cases hfound
  rw [edited, horigin, htarget]

/-- The root is not copied. -/
theorem Lands.ne_nil_of_copy (hdone : (m.copy source target).fault? = none) : s ≠ [] := by
  rintro rfl
  exact ((h.copy_done_iff.1 hdone).2 (Folder.kinds_nil m.root)).1 rfl

/-- What is copied into a directory lands right below it. -/
theorem Lands.eq_concat (hm : m.Sound) (hdir : m.hasDirectory target = true) (htop : s ≠ []) :
    ∃ name, d = segments (m.resolve target) ++ [name] := by
  obtain ⟨t, ht, hproper⟩ := resolve_ofNames hm.cwd target
  have htproper : ∀ n ∈ t, IsProper n := fun n hn => (hproper n hn).1
  rcases List.eq_nil_or_concat s with hnil | ⟨init, name, rfl⟩
  · exact absurd hnil htop
  rw [List.concat_eq_append] at h
  have hname : IsProper name := h.proper name (by simp)
  have hplace := h.place
  rw [landsAt, if_pos hdir, ht, h.origin, Path.base_ofNames h.proper,
    Path.join_ofNames htproper hname] at hplace
  have hrow : ∀ n ∈ t ++ [name], IsProper n := by
    rw [List.forall_mem_append, List.forall_mem_singleton]
    exact ⟨htproper, hname⟩
  refine ⟨name, ?_⟩
  rw [ht, Path.segments_ofNames htproper]
  exact ((Path.ofNames_inj hrow h.placeProper).1 hplace).symm

/-- The directory into which something was copied is still there, so that it lands at the same place
again. -/
theorem Lands.again (hm : m.Sound) (hdir : m.hasDirectory target = true)
    (hbeside : d <+: s → d = s) (hdone : (m.copy source target).fault? = none) :
    Lands (m.copy source target).machine source target s d := by
  obtain ⟨name, hconcat⟩ := h.eq_concat hm hdir (h.ne_nil_of_copy hdone)
  have hcopied := h.copied hm hbeside hdone
  have habove : ¬ d <+: segments (m.resolve target) := by
    intro hpre
    have hlength := hpre.length_le
    rw [hconcat, List.length_append, List.length_singleton] at hlength
    omega
  have hdir' : (m.copy source target).machine.hasDirectory target = true := by
    rw [hasDirectory_iff] at hdir ⊢
    have hresolve : (m.copy source target).machine.resolve target = m.resolve target := by
      rw [h.copy_machine]
      rfl
    rw [hresolve, Folder.kinds_eq_contents, hcopied.elsewhere _ habove, ← Folder.kinds_eq_contents, hdir]
  have hplace := h.place
  rw [landsAt, if_pos hdir] at hplace
  refine ⟨?_, ?_, h.proper, h.placeProper, h.ne_nil⟩
  · rw [h.copy_machine]
    exact h.origin
  · rw [landsAt, if_pos hdir', h.copy_machine]
    exact hplace

end Again

/-- **A copy into a directory done twice is done once.** The directory receives what is copied under its own
name, and that place is not above the place that it comes from. Then a copy that goes through does so
again, reports the same, and leaves everything as the first one did. -/
theorem copy_again (hm : m.Reachable) (hsrc : m.resolve source = src)
    (hdir : m.hasDirectory target = true) (hdst : Path.join [m.resolve target, Path.base src] = dst)
    (hbeside : Path.Within src dst → src = dst) (hdone : (m.copy source target).fault? = none) :
    ((m.copy source target).machine.copy source target).fault? = none ∧
      (m.copy source target).machine.copy source target = m.copy source target := by
  have hlandsAt : m.landsAt source target = dst := by
    rw [landsAt, if_pos hdir, hsrc, hdst]
  obtain ⟨h, -, -⟩ := hm.lands hsrc hlandsAt
  have hplaces : segments dst <+: segments src → segments dst = segments src :=
    fun hbelow => congrArg segments (hbeside hbelow).symm
  have hagain := h.again hm.sound hdir hplaces hdone
  have hcopied := h.copied hm.sound hplaces hdone
  obtain ⟨hcan, hself⟩ := h.copy_done_iff.1 hdone
  have hdone' : ((m.copy source target).machine.copy source target).fault? = none := by
    rw [hagain.copy_done_iff, hcopied.kinds_source]
    exact ⟨hcopied.canLand hcan (h.ne_nil (h.ne_nil_of_copy hdone)), hself⟩
  refine ⟨hdone', ?_⟩
  obtain ⟨found, hfound⟩ := h.copy_fault_iff.1 hdone
  obtain ⟨found', hfound'⟩ := hagain.copy_fault_iff.1 hdone'
  have hlands := hagain.targetPath
  rw [h.copy_machine] at hfound' hlands
  have hroot := Folder.copy_copy_root h.proper h.placeProper h.ne_nil h.targetPath hm.sound.ordered hplaces
    hfound rfl hlands hfound'
  rw [hagain.copy_eq hdone', h.copy_eq hdone]
  exact congrArg (fun root => Change.mk { m with root } _ none) hroot

/-- `/s` is merged into `/d/s`, where it puts a file in place of a directory, and then merged again. -/
theorem copy_again_merge :
    twoTrees.Reachable ∧ twoTrees.hasDirectory (bytes "/d") = true ∧
    Path.join [twoTrees.resolve (bytes "/d"), Path.base (bytes "/s")] = bytes "/d/s" ∧
    ¬ Path.Within (bytes "/s") (bytes "/d/s") ∧
    (twoTrees.copy (bytes "/s") (bytes "/d")).fault? = none ∧
    twoTreesMerged ≠ twoTrees.root ∧
    ((twoTrees.copy (bytes "/s") (bytes "/d")).machine.copy (bytes "/s") (bytes "/d")).machine.root =
      twoTreesMerged := by
  have hself : twoTrees.resolve (bytes "/s") = bytes "/s" := by decide +kernel
  have hdir : twoTrees.hasDirectory (bytes "/d") = true := by decide +kernel
  have hlands : Path.join [twoTrees.resolve (bytes "/d"), Path.base (bytes "/s")] = bytes "/d/s" := by
    decide +kernel
  have hnot : ¬ Path.Within (bytes "/s") (bytes "/d/s") := by decide +kernel
  have hdone : (twoTrees.copy (bytes "/s") (bytes "/d")).fault? = none := by decide +kernel
  obtain ⟨-, hagain⟩ :=
    copy_again twoTrees_reachable hself hdir hlands (fun hbelow => absurd hbelow hnot) hdone
  refine ⟨twoTrees_reachable, hdir, hlands, hnot, hdone, ?_, congrArg (·.machine.root) hagain⟩
  intro hsame
  have hkinds := congrArg (Folder.kinds · [bytes "d", bytes "s", bytes "x"]) hsame
  revert hkinds
  decide +kernel

end Machine

end BuildScript
