import BuildScript.Files.Disk
import BuildScript.Proofs.Files.Contents
import BuildScript.Proofs.Path.Absolute

/-!
# Files on a disk

A path on a disk is followed segment by segment, each of them from a directory. So it leads to the same
place as long as directories stay directories, and to the same place when it is cleaned.

* `Step`: what one segment does; `follow_cons_iff`, `follow_append_iff`: **a path is followed in steps.**
* `follow_mono`: a path leads on where it led, if no directory goes away.
* `follow_reduce`: **cleaning does not change where a path leads.**
* `openAt_write`: **a file that was written is there with what was written.**
* `HasRoom`: a directory in which a name is free for a file. `write_of_hasRoom`: **there it is written**,
  and all other free names stay free.
-/

namespace BuildScript.Disk

open BuildScript.Path (IsProper)

variable {root : Folder} {segment : Bytes} {segments rest place target : List Bytes}

/-! ## Following a path -/

/-- What one segment of a path does: it stays, goes up, or goes down by its name. -/
inductive Step (segment : Bytes) (place : List Bytes) : List Bytes → Prop where
  | stay (h : segment = [] ∨ segment = Path.here) : Step segment place place
  | up (h : segment = Path.up) : Step segment place place.dropLast
  | down (hne : segment ≠ []) (hhere : segment ≠ Path.here) (hup : segment ≠ Path.up)
      (hlength : segment.length ≤ maxName) : Step segment place (place ++ [segment])

theorem dir_of_follow_cons (h : follow root (segment :: rest) place = .ok target) :
    ∃ folder, root.walk place = some (.dir folder) := by
  unfold follow at h
  split at h
  · cases h
  · cases h
  · next folder hwalk => exact ⟨folder, hwalk⟩

/-- Where nothing is, no path goes on. -/
theorem follow_of_walk_none (hwalk : root.walk place = none) (hrest : rest ≠ []) :
    follow root rest place = .error .missing := by
  obtain ⟨segment, rest, rfl⟩ := List.exists_cons_of_ne_nil hrest
  rw [follow, hwalk]

/-- **A path is followed in steps**, each of them from a directory. -/
theorem follow_cons_iff :
    follow root (segment :: rest) place = .ok target ↔
      root.kinds place = some .dir ∧
        ∃ next, Step segment place next ∧ follow root rest next = .ok target := by
  constructor
  · intro h
    obtain ⟨folder, hwalk⟩ := dir_of_follow_cons h
    refine ⟨Folder.kinds_eq_dir_iff.2 ⟨folder, hwalk⟩, ?_⟩
    simp only [follow, hwalk, Bool.or_eq_true, decide_eq_true_eq] at h
    split at h
    · next hstay => exact ⟨place, .stay hstay, h⟩
    next hstay =>
    split at h
    · next hup => exact ⟨_, .up hup, h⟩
    next hup =>
    split at h
    · cases h
    next hlength =>
    split at h
    · cases h
    · exact ⟨_, .down (fun h => hstay (Or.inl h)) (fun h => hstay (Or.inr h)) hup (Nat.not_lt.1 hlength), h⟩
  · rintro ⟨hkind, next, hstep, h⟩
    obtain ⟨folder, hwalk⟩ := Folder.kinds_eq_dir_iff.1 hkind
    simp only [follow, hwalk, Bool.or_eq_true, decide_eq_true_eq]
    cases hstep with
    | stay hstay => rwa [if_pos hstay]
    | up hup =>
      have hstay : ¬ (segment = [] ∨ segment = Path.here) := by rw [hup]; decide
      rwa [if_neg hstay, if_pos hup]
    | down hne hhere hup hlength =>
      rw [if_neg (not_or.2 ⟨hne, hhere⟩), if_neg hup, if_neg (Nat.not_lt.2 hlength)]
      split
      · next hmissing =>
        -- a name that is not there can only be the last one
        simp only [Bool.and_eq_true, Option.isNone_iff_eq_none, Bool.not_eq_true',
          List.isEmpty_eq_false_iff] at hmissing
        have hnone : root.walk (place ++ [segment]) = none := by
          rw [Folder.walk_append, hwalk, Option.bind_some]
          exact (Folder.walk_name folder segment []).trans (by rw [hmissing.1]; rfl)
        rw [follow_of_walk_none hnone hmissing.2] at h
        cases h
      · exact h

theorem follow_append_iff :
    follow root (segments ++ rest) place = .ok target ↔
      ∃ between, follow root segments place = .ok between ∧ follow root rest between = .ok target := by
  induction segments generalizing place with
  | nil => simp [follow]
  | cons segment segments ih =>
    rw [List.cons_append, follow_cons_iff]
    simp only [follow_cons_iff, ih]
    grind

theorem follow_one_iff :
    follow root [segment] place = .ok target ↔
      root.kinds place = some .dir ∧ Step segment place target := by
  rw [follow_cons_iff]
  simp [follow]

/-- A path leads on where it led, if no directory goes away. -/
theorem follow_mono {changed : Folder}
    (hdirs : ∀ other, root.kinds other = some .dir → changed.kinds other = some .dir)
    (h : follow root segments place = .ok target) : follow changed segments place = .ok target := by
  induction segments generalizing place with
  | nil => exact h
  | cons segment segments ih =>
    obtain ⟨hplace, next, hstep, hnext⟩ := follow_cons_iff.1 h
    exact follow_cons_iff.2 ⟨hdirs place hplace, next, hstep, ih hnext⟩

theorem kinds_dropLast (h : root.kinds place = some .dir) : root.kinds place.dropLast = some .dir := by
  rcases List.eq_nil_or_concat place with rfl | ⟨init, last, rfl⟩
  · exact h
  · rw [List.concat_eq_append] at h ⊢
    rw [List.dropLast_concat]
    by_contra hfile
    rw [Folder.kinds_append_of_ne_dir hfile (List.cons_ne_nil last [])] at h
    cases h

/-- A path that leads to no directory leads to a name in one. -/
theorem place_of_follow (hne : segments ≠ []) (h : follow root segments place = .ok target)
    (htarget : root.kinds target ≠ some .dir) :
    ∃ init name, target = init ++ [name] ∧ root.kinds init = some .dir := by
  rcases List.eq_nil_or_concat segments with rfl | ⟨before, last, rfl⟩
  · exact absurd rfl hne
  rw [List.concat_eq_append, follow_append_iff] at h
  obtain ⟨between, -, hlast⟩ := h
  obtain ⟨hbetween, hstep⟩ := follow_one_iff.1 hlast
  cases hstep with
  | stay => exact absurd hbetween htarget
  | up => exact absurd (kinds_dropLast hbetween) htarget
  | down => exact ⟨between, last, rfl, hbetween⟩

/-! ## Cleaning a path -/

/-- The segments on the stack of a path that is cleaned lead to where the path has led so far. -/
structure Tracks (root : Folder) (start : List Bytes) (stack : List Bytes) (place : List Bytes) : Prop where
  leads : follow root stack.reverse start = .ok place
  kept : ∀ segment ∈ stack, segment ≠ [] ∧ segment ≠ Path.here

variable {start stack next : List Bytes}

/-- A segment that is put on the stack. -/
theorem Tracks.cons (h : Tracks root start stack place) (hplace : root.kinds place = some .dir)
    (hstep : Step segment place next) (hne : segment ≠ []) (hhere : segment ≠ Path.here) :
    Tracks root start (segment :: stack) next := by
  refine ⟨?_, List.forall_mem_cons.2 ⟨⟨hne, hhere⟩, h.kept⟩⟩
  rw [List.reverse_cons, follow_append_iff]
  exact ⟨place, h.leads, follow_one_iff.2 ⟨hplace, hstep⟩⟩

/-- The name on top of the stack is taken off by a step up. -/
theorem Tracks.dropLast {top : Bytes} (h : Tracks root start (top :: stack) place)
    (htop : top ≠ Path.up) : Tracks root start stack place.dropLast := by
  obtain ⟨⟨hne, hhere⟩, hkept⟩ := List.forall_mem_cons.1 h.kept
  refine ⟨?_, hkept⟩
  have hleads := h.leads
  rw [List.reverse_cons, follow_append_iff] at hleads
  obtain ⟨between, hbetween, hlast⟩ := hleads
  obtain ⟨-, hstep⟩ := follow_one_iff.1 hlast
  cases hstep with
  | stay hstay => exact absurd hstay (not_or.2 ⟨hne, hhere⟩)
  | up hup => exact absurd hup htop
  | down => rwa [List.dropLast_concat]

/-- **One segment of a path that is cleaned.** -/
theorem Tracks.push {rooted : Bool} (hroot : rooted = true → start = [])
    (h : Tracks root start stack place) (hplace : root.kinds place = some .dir)
    (hstep : Step segment place next) :
    Tracks root start (Path.push rooted stack segment) next := by
  unfold Path.push
  cases hstep with
  | stay hstay => rwa [if_pos (by simpa using hstay)]
  | up hup =>
    subst hup
    have hself : Step Path.up place place.dropLast := .up rfl
    have hup := h.cons hplace hself (by decide) (by decide)
    rw [if_neg (by decide), if_pos rfl]
    split
    · split
      · next hrooted =>
        -- above the root there is nothing
        have hstart := h.leads
        rw [hroot hrooted] at hstart ⊢
        cases hstart
        exact ⟨rfl, nofun⟩
      · exact hup
    · split
      · exact hup
      · next htop => exact h.dropLast htop
  | down hne hhere hup hlength =>
    rw [if_neg (by simp [hne, hhere]), if_neg hup]
    exact h.cons hplace (.down hne hhere hup hlength) hne hhere

/-- **Cleaning does not change where a path leads.** -/
theorem follow_reduce {rooted : Bool} (hroot : rooted = true → start = [])
    (h : follow root segments start = .ok target) :
    follow root (Path.reduce rooted segments) start = .ok target := by
  have hall : ∀ stack place, Tracks root start stack place → follow root segments place = .ok target →
      Tracks root start (segments.foldl (Path.push rooted) stack) target := by
    clear h
    induction segments with
    | nil =>
      intro stack place htracks hnil
      cases hnil
      exact htracks
    | cons segment segments ih =>
      intro stack place htracks hcons
      obtain ⟨hplace, next, hstep, hnext⟩ := follow_cons_iff.1 hcons
      exact ih _ next (htracks.push hroot hplace hstep) hnext
  exact (hall [] start ⟨rfl, nofun⟩ h).leads

/-! ## Places -/

variable {disk written : Disk} {path dir name other data : Bytes}

/-- The place at which a path starts. -/
def startOf (disk : Disk) (path : Bytes) : List Bytes := if Path.isAbsolute path then [] else disk.cwd

theorem locate_ok_iff :
    disk.locate path = .ok place ↔
      path ≠ [] ∧ 0 ∉ path ∧ path.length ≤ maxPath ∧
        follow disk.root (Bytes.splitOn Path.slash path) (disk.startOf path) = .ok place := by
  unfold locate
  split
  · next h => simp [h]
  next hne =>
  split
  · next h => simp [List.contains_iff_mem.1 h]
  next hzero =>
  split
  · next h => simp [Nat.not_le.2 h]
  next hlength =>
  have hzero : 0 ∉ path := fun h => hzero (List.contains_iff_mem.2 h)
  simp [hne, hzero, Nat.not_lt.1 hlength, startOf]

/-- A name that a file can have. -/
structure IsFileName (name : Bytes) : Prop where
  proper : IsProper name
  zero : 0 ∉ name
  short : name.length ≤ maxName

/-- **The place of a name in a directory**, by the path that is put together and cleaned. -/
theorem locate_join (hdir : disk.locate dir = .ok place) (hplace : disk.root.kinds place = some .dir)
    (hfile : IsFileName name) (hlength : (Path.join [dir, name]).length ≤ maxPath) :
    disk.locate (Path.join [dir, name]) = .ok (place ++ [name]) := by
  obtain ⟨hname, hzero, hshort⟩ := hfile
  obtain ⟨hne, hclear, -, hfollow⟩ := locate_ok_iff.1 hdir
  have habsolute : Path.isAbsolute (dir ++ Path.slash :: name) = Path.isAbsolute dir := by
    obtain ⟨b, tail, rfl⟩ := List.exists_cons_of_ne_nil hne
    rfl
  have hsplit : Bytes.splitOn Path.slash (dir ++ Path.slash :: name) =
      Bytes.splitOn Path.slash dir ++ [name] := by
    rw [Bytes.splitOn_append, Bytes.splitOn_of_not_mem hname.1.2]
  rw [Path.join_pair hne hname.1.1] at hlength ⊢
  rw [locate_ok_iff]
  refine ⟨?_, ?_, hlength, ?_⟩
  · exact ((Path.endsIn_append dir hname.1.2).clean hname).ne_nil hname
  · intro hmem
    rcases Path.mem_clean hmem with hmem | hslash | hdot
    · rcases List.mem_append.1 hmem with hmem | hmem
      · exact hclear hmem
      · rcases List.mem_cons.1 hmem with hslash | hmem
        · cases hslash
        · exact hzero hmem
    · cases hslash
    · cases hdot
  · have hreduce : follow disk.root (Path.reduce (Path.isAbsolute dir) (Bytes.splitOn Path.slash dir))
        (disk.startOf dir) = .ok place :=
      follow_reduce (fun h => if_pos h) hfollow
    have hdown : Step name place (place ++ [name]) := .down hname.1.1 hname.2.1 hname.2.2 hshort
    have hpath := follow_append_iff.2 ⟨place, hreduce, follow_one_iff.2 ⟨hplace, hdown⟩⟩
    rw [Path.splitOn_clean hsplit hname, startOf, Path.isAbsolute_clean, habsolute]
    cases habs : Path.isAbsolute dir with
    | false =>
      rw [startOf, habs] at hpath
      exact hpath
    | true =>
      -- an absolute path starts with a segment that stays at the root
      rw [startOf, habs] at hpath
      exact follow_cons_iff.2 ⟨Folder.kinds_nil _, [], .stay (Or.inl rfl), hpath⟩

/-! ## Writing a file -/

theorem put_concat (disk : Disk) (place : List Bytes) (name : Bytes) (entry : Entry) :
    disk.put (place ++ [name]) entry =
      { disk with root := disk.root.update (Folder.insert name entry) place } := by
  simp [put]

/-- What is not below the file is as it was. -/
theorem kinds_put (disk : Disk) (name data : Bytes) {other : List Bytes}
    (hother : ¬ place ++ [name] <+: other) :
    (disk.put (place ++ [name]) (.file data)).root.kinds other = disk.root.kinds other := by
  rw [put_concat, Folder.kinds_insertAt]
  exact Kinds.grafted_of_not_below hother

/-- The file is there. -/
theorem walk_put (hplace : disk.root.kinds place = some .dir) (name data : Bytes) :
    (disk.put (place ++ [name]) (.file data)).root.walk (place ++ [name]) = some (.file data) := by
  have hcontents := Folder.contents_insertAt hplace name (.file data) (place ++ [name])
  rw [if_pos List.prefix_rfl, List.drop_length] at hcontents
  obtain ⟨entry, hwalk, hnode⟩ := Option.map_eq_some_iff.1 hcontents
  rw [put_concat]
  refine hwalk.trans ?_
  cases entry with
  | file held => cases hnode; rfl
  | dir inner => cases hnode

/-- No directory goes away. -/
theorem kinds_put_dir (hfree : disk.root.kinds (place ++ [name]) ≠ some .dir) (data : Bytes)
    (other : List Bytes) (hother : disk.root.kinds other = some .dir) :
    (disk.put (place ++ [name]) (.file data)).root.kinds other = some .dir := by
  rw [kinds_put, hother]
  rintro ⟨below, rfl⟩
  exact Folder.contents_append_ne_dir hfree below (Folder.contents_eq_dir_iff.2 hother)

/-- A path leads on where it led. -/
theorem locate_put (hfree : disk.root.kinds (place ++ [name]) ≠ some .dir) (data : Bytes)
    (h : disk.locate path = .ok target) :
    (disk.put (place ++ [name]) (.file data)).locate path = .ok target := by
  obtain ⟨hne, hzero, hlength, hfollow⟩ := locate_ok_iff.1 h
  have hcwd : (disk.put (place ++ [name]) (.file data)).startOf path = disk.startOf path := by
    rw [put_concat]
    rfl
  rw [locate_ok_iff, hcwd]
  exact ⟨hne, hzero, hlength, follow_mono (kinds_put_dir hfree data) hfollow⟩

theorem trimEnd_of_getLast? (h : path.getLast? ≠ some Path.slash) : trimEnd path = path := by
  have hkept : path.reverse.dropWhile (· == Path.slash) = path.reverse :=
    Bytes.dropWhile_of_head? (by rwa [List.head?_reverse])
  rw [trimEnd, hkept, List.reverse_reverse]
  split
  · next hnil => rw [hnil]; rfl
  · rfl

/-- When a file is written, and what is done then. -/
theorem write_ok_iff :
    disk.write path data = .ok written ↔
      path.getLast? ≠ some Path.slash ∧ ∃ place name, disk.locate path = .ok (place ++ [name]) ∧
        disk.root.kinds place = some .dir ∧ disk.root.kinds (place ++ [name]) ≠ some .dir ∧
        disk.put (place ++ [name]) (.file data) = written := by
  unfold write
  constructor
  · intro h
    dsimp only at h
    split at h
    · cases h
    next place hlocate =>
    split at h
    · cases h
    next hlast =>
    rw [trimEnd_of_getLast? hlast] at hlocate
    split at h
    · cases h
    next hfree =>
    cases h
    have hkind : disk.root.kinds place ≠ some .dir := by
      intro hdir
      obtain ⟨folder, hwalk⟩ := Folder.kinds_eq_dir_iff.1 hdir
      exact hfree folder hwalk
    obtain ⟨-, -, -, hfollow⟩ := locate_ok_iff.1 hlocate
    obtain ⟨init, name, rfl, hinit⟩ := place_of_follow (Bytes.splitOn_ne_nil _ _) hfollow hkind
    exact ⟨hlast, init, name, hlocate, hinit, hkind, rfl⟩
  · rintro ⟨hlast, place, name, hlocate, -, hkind, rfl⟩
    rw [trimEnd_of_getLast? hlast, hlocate]
    dsimp only
    rw [if_neg hlast]
    split
    · next folder hwalk => exact absurd (Folder.kinds_eq_dir_iff.2 ⟨folder, hwalk⟩) hkind
    · rfl

/-- **A file that was written is there with what was written.** -/
theorem openAt_write (h : disk.write path data = .ok written) : written.openAt path = .ok (.file data) := by
  obtain ⟨-, place, name, hlocate, hplace, hfree, rfl⟩ := write_ok_iff.1 h
  have hlocate := locate_put hfree data hlocate
  have hwalk := walk_put hplace name data
  simp only [openAt, entryFor, entry, hlocate]
  simp only [bind, Except.bind, hwalk, pure, Except.pure]

/-! ## Room for a file -/

/-- A directory in which a name is free for a file. -/
structure HasRoom (disk : Disk) (dir name : Bytes) : Prop where
  exists_place : ∃ place, disk.locate dir = .ok place ∧ disk.root.kinds place = some .dir ∧
    disk.root.kinds (place ++ [name]) ≠ some .dir
  length_le : (Path.join [dir, name]).length ≤ maxPath

/-- **A file is written where there is room for it**, and all other free names stay free. -/
theorem write_of_hasRoom (h : disk.HasRoom dir name) (hname : IsFileName name) (data : Bytes) :
    ∃ written, disk.write (Path.join [dir, name]) data = .ok written ∧
      ∀ other, other ≠ name → disk.HasRoom dir other → written.HasRoom dir other := by
  obtain ⟨⟨place, hdir, hplace, hfree⟩, hlength⟩ := h
  have hlocate := locate_join hdir hplace hname hlength
  have hlast : (Path.join [dir, name]).getLast? ≠ some Path.slash := by
    rw [Path.join_pair (locate_ok_iff.1 hdir).1 hname.proper.1.1]
    exact ((Path.endsIn_append dir hname.proper.1.2).clean hname.proper).getLast? hname.proper.1
  refine ⟨_, write_ok_iff.2 ⟨hlast, place, name, hlocate, hplace, hfree, rfl⟩, ?_⟩
  rintro other hne ⟨⟨_, hat, -, hother⟩, hlength⟩
  rw [hdir, Except.ok.injEq] at hat
  subst hat
  have hapart : ¬ place ++ [name] <+: place ++ [other] := by
    rw [List.prefix_append_right_inj, List.cons_prefix_cons]
    exact fun h => hne h.1.symm
  refine ⟨⟨place, locate_put hfree data hdir, kinds_put_dir hfree data place hplace, ?_⟩, hlength⟩
  rwa [kinds_put disk name data hapart]

end BuildScript.Disk
