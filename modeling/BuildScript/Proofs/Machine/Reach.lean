import BuildScript.Proofs.Files.Names
import BuildScript.Proofs.Machine.Effects
import BuildScript.Proofs.Machine.Execution
import BuildScript.Proofs.Path.Absolute
import BuildScript.Proofs.Text.PathText

/-!
# The states that a machine can reach

A machine starts fresh, bare or with nothing set up, and then scripts are run on it and its operations
are called, in any order and with any paths. Names come into its tree from paths that were made
absolute and clean, so they are proper ones.

* `Operation`, `Machine.after`: what can be done with a machine, and a machine after some of it.
* `Machine.wayTo`: the names on the way to where a path leads.
* `resolve_eq`, `targetPath_ofNames`: **the names of the paths that operations work with.**
  `isClean_resolve`, `resolve_isClean`: these paths are clean, and mean themselves.
* `named_makeDir`, `named_put`, `named_remove`, `named_copy`, `named_move`: the names that the operations
  bring into a tree.
* `Machine.Tidy`: what the names and the working directory of a machine look like. `tidy_perform`,
  `tidy_run`, `tidy_after`: **every step keeps it**, whether it fails or not.
* `reached_state_well_formed`: the names in every state that can be reached.
-/

namespace BuildScript

open BuildScript.Path (segments landing IsProper IsClean ofNames)

/-! ## Where entries land -/

/-- **The path at which an entry lands** is one of the names of the two paths, and not the root unless
the root itself is sent somewhere. -/
theorem targetPath_ofNames {source target : List Bytes} (hsource : ∀ n ∈ source, IsProper n)
    (htarget : ∀ n ∈ target, IsProper n) (root : Folder) :
    ∃ names, Landing.targetPath root (ofNames source) (ofNames target) = ofNames names ∧
      (∀ n ∈ names, n ∈ source ∨ n ∈ target) ∧ (source ≠ [] → names ≠ []) := by
  unfold Landing.targetPath
  rw [Path.segments_ofNames htarget]
  split
  · -- a directory receives the entry under its own name, and the root has none
    rcases List.eq_nil_or_concat source with rfl | ⟨init, last, rfl⟩
    · have hbase : Path.base (ofNames []) = Path.root := by decide
      rw [hbase, Path.join_ofNames_root htarget]
      exact ⟨target, rfl, fun n hn => Or.inr hn, fun h => absurd rfl h⟩
    · rw [List.concat_eq_append] at hsource ⊢
      have hlast : IsProper last := hsource last (by simp)
      rw [Path.base_ofNames hsource, Path.join_ofNames htarget hlast]
      refine ⟨target ++ [last], rfl, fun n hn => ?_, fun _ => by simp⟩
      rcases List.mem_append.1 hn with hn | hn
      · exact Or.inr hn
      · rw [List.mem_singleton.1 hn]
        exact Or.inl (by simp)
  · next hnone =>
    refine ⟨target, rfl, fun n hn => Or.inr hn, fun _ hnil => ?_⟩
    subst hnil
    exact hnone root (by rw [Folder.walk])

namespace Folder

variable {P : Bytes → Prop} {root : Folder} {names source target : List Bytes}

theorem target_of_find {from' to' : Bytes} {found : Landing}
    (h : Landing.find root from' to' = .ok found) :
    found.target = Landing.targetPath root from' to' := by
  unfold Landing.find at h
  split at h
  · cases h
  · dsimp only at h
    split at h
    · cases h
    · split at h
      · cases h
      · cases h
      · cases h
        rfl

/-! ## The names that operations bring -/

theorem named_makeDir {path : Bytes} (hpath : ∀ n ∈ segments path, P n) (hroot : root.Named P) :
    (makeDir path root).root.Named P := by
  rw [makeDir_root]
  exact named_makeDirs hpath hroot

/-- The names on the way to a directory and the name in it are those of the path. -/
theorem forall_landing (hne : names ≠ []) (hproper : ∀ n ∈ names, IsProper n) (h : ∀ n ∈ names, P n) :
    (∀ n ∈ segments (Path.splitLast (ofNames names)).1, P n) ∧ P (Path.splitLast (ofNames names)).2 := by
  have hlanding := Path.landing_ofNames hne hproper
  rw [← hlanding, landing, List.forall_mem_append] at h
  exact ⟨h.1, h.2 _ (List.mem_singleton_self _)⟩

theorem named_put (hproper : ∀ n ∈ names, IsProper n) (hnames : ∀ n ∈ names, P n)
    (hroot : root.Named P) (data : Bytes) : (put (ofNames names) data root).root.Named P := by
  unfold put
  split
  · exact hroot
  · next htop =>
    have hne : names ≠ [] := fun hnil => htop (by rw [hnil]; rfl)
    obtain ⟨habove, hname⟩ := forall_landing hne hproper hnames
    have hmade := named_makeDir habove hroot
    -- the directories above stay, whether or not the file can be put into the last one
    dsimp only
    split
    · next made fault hresult => rwa [hresult] at hmade
    · next made hresult =>
      rw [hresult] at hmade
      split
      · exact hmade
      · exact named_update (fun _ hinner => named_insert hinner hname (named_file data)) _ hmade

theorem named_remove (hroot : root.Named P) (path : Bytes) : (remove path root).Named P := by
  unfold remove
  split
  · exact named_nil
  · exact named_update (fun _ hinner => named_erase hinner _) _ hroot

/-- What lands has names of the tree, and so has what it is laid over. -/
theorem Found.named {from' : Bytes} {found : Landing} (h : Found root from' found)
    (hroot : root.Named P) : found.entry.Named P ∧ (overlay found.entry found.old?).Named P := by
  have hentry := named_walk hroot h.entry
  refine ⟨hentry, named_overlay _ _ hentry fun old hold => ?_⟩
  obtain ⟨folder, hwalk, hfolder⟩ := h.holder
  rw [hfolder] at hold
  exact named_find? (named_dir.1 (named_walk hroot hwalk)) hold

variable (hsource : ∀ n ∈ source, IsProper n) (htarget : ∀ n ∈ target, IsProper n)
  (hnames : ∀ n, n ∈ source ∨ n ∈ target → P n)
include hsource htarget hnames

/-- What lands is put under a name of one of the two paths, unless the root is sent somewhere. -/
theorem named_place {found : Landing} {entry : Entry} {folder : Folder}
    (hfind : Landing.find root (ofNames source) (ofNames target) = .ok found) (htop : source ≠ [])
    (hentry : entry.Named P) (hfolder : folder.Named P) : (found.place entry folder).Named P := by
  obtain ⟨names, hlands, hfrom, hne⟩ := targetPath_ofNames hsource htarget root
  have hproper : ∀ n ∈ names, IsProper n := fun n hn => (hfrom n hn).elim (hsource n) (htarget n)
  have hname := (forall_landing (hne htop) hproper fun n hn => hnames n (hfrom n hn)).2
  unfold Landing.place
  rw [(target_of_find hfind).trans hlands]
  exact named_update (fun _ hinner => named_insert hinner hname hentry) _ hfolder

theorem named_copy (hroot : root.Named P) :
    (copy (ofNames source) (ofNames target) root).root.Named P := by
  unfold copy
  split
  · exact hroot
  · next found hfind =>
    have hfound := found_of_find hfind
    split
    · exact hroot
    · next hself =>
      -- only the root lands at the root, and the root is not copied
      have htop : source ≠ [] := by
        rintro rfl
        have hdir : found.entry.isDir = true := by
          have hentry := hfound.entry
          rw [Path.segments_ofNames hsource, walk, Option.some.injEq] at hentry
          rw [← hentry]
          rfl
        simp [hdir, ofNames, Path.root, Bytes.join] at hself
      exact named_place hsource htarget hnames hfind htop (hfound.named hroot).2 hroot

theorem named_move (hroot : root.Named P) :
    (move (ofNames source) (ofNames target) root).root.Named P := by
  unfold move
  split
  · exact hroot
  · next found hfind =>
    have hentry := ((found_of_find hfind).named hroot).1
    split
    · exact hroot
    split
    · exact hroot
    · next hself =>
      have htop : source ≠ [] := by
        rintro rfl
        simp [ofNames, Path.root, Bytes.join] at hself
      -- the entry is taken away before it is put where it lands
      split
      · exact hroot
      · exact named_place hsource htarget hnames hfind htop hentry (named_remove hroot _)

end Folder

/-! ## What every step keeps -/

/-- All proper names that are segments of a path have a property. -/
def Path.Brings (P : Bytes → Prop) (path : Bytes) : Prop :=
  ∀ n ∈ Bytes.splitOn Path.slash path, IsProper n → P n

namespace Machine

/-- The names in a machine's tree and those on the way to its working directory have a property, and
the working directory is clean, or unset where that can be. -/
structure Tidy (P : Bytes → Prop) (unset : Prop) (m : Machine) : Prop where
  cwd : (m.cwd = [] ∧ unset) ∨ IsClean m.cwd
  way : ∀ n ∈ segments m.cwd, P n
  names : m.root.Named P

variable {P : Bytes → Prop} {unset : Prop} {m : Machine} {path source target : Bytes}

/-- The directory in which relative paths begin. -/
theorem start_ofNames (hcwd : m.cwd = [] ∨ IsClean m.cwd) :
    (∀ n ∈ segments m.cwd, IsProper n) ∧
      (if m.cwd = [] then Path.root else m.cwd) = ofNames (segments m.cwd) := by
  rcases hcwd with hnil | hclean
  · have hnone : segments m.cwd = [] := by rw [hnil]; decide
    rw [hnone, if_pos hnil]
    exact ⟨nofun, rfl⟩
  · obtain ⟨names, hproper, hnames⟩ := Path.isClean_iff.1 hclean
    have hne : m.cwd ≠ [] := by rw [hnames]; exact Path.ofNames_ne_nil names
    rw [if_neg hne, hnames, Path.segments_ofNames hproper]
    exact ⟨hproper, rfl⟩

/-- The names on the way to where a path leads: its segments are taken one after the other, from the root
or from the working directory on. -/
def wayTo (m : Machine) (path : Bytes) : List Bytes :=
  ((Bytes.splitOn Path.slash path).foldl (Path.push true)
    (if Path.isAbsolute path then [] else (segments m.cwd).reverse)).reverse

/-- They are proper, and come from the working directory or the path. -/
theorem mem_wayTo (hcwd : m.cwd = [] ∨ IsClean m.cwd) {path n : Bytes} (hn : n ∈ m.wayTo path) :
    IsProper n ∧ (n ∈ segments m.cwd ∨ n ∈ Bytes.splitOn Path.slash path) := by
  obtain ⟨hproper, -⟩ := start_ofNames hcwd
  have hstart : ∀ n ∈ if Path.isAbsolute path then [] else (segments m.cwd).reverse, n ∈ segments m.cwd := by
    intro n hn
    split at hn
    · cases hn
    · exact List.mem_reverse.1 hn
  have hmem := Path.mem_foldl_push (fun _ hpart => Bytes.not_mem_of_mem_splitOn hpart) _
    (fun n hn => hproper n (hstart n hn)) n (List.mem_reverse.1 hn)
  exact ⟨hmem.1, hmem.2.imp_left (hstart n)⟩

/-- **Where a path leads.** -/
theorem resolve_eq (hcwd : m.cwd = [] ∨ IsClean m.cwd) (path : Bytes) :
    m.resolve path = ofNames (m.wayTo path) := by
  obtain ⟨hproper, hstart⟩ := start_ofNames hcwd
  unfold resolve wayTo
  cases habsolute : Path.isAbsolute path with
  | true => exact Path.clean_of_isAbsolute habsolute
  | false =>
    simp only [Bool.false_eq_true, if_false]
    rw [hstart]
    by_cases hempty : path = []
    · have hblank : Bytes.splitOn Path.slash [] = [[]] := rfl
      rw [hempty, Path.join_single (Path.ofNames_ne_nil _), Path.clean_ofNames hproper, hblank,
        List.foldl_cons, List.foldl_nil, Path.push_blank (Or.inl rfl), List.reverse_reverse]
    · have hbegin : Path.isAbsolute (ofNames (segments m.cwd) ++ Path.slash :: path) = true := by
        simp [Path.isAbsolute, ofNames]
      rw [Path.join_pair (Path.ofNames_ne_nil _) hempty, Path.clean_of_isAbsolute hbegin, Path.reduce,
        Bytes.splitOn_append, List.foldl_append, Path.foldl_push_ofNames hproper, List.append_nil]

theorem resolve_ofNames (hcwd : m.cwd = [] ∨ IsClean m.cwd) (path : Bytes) :
    ∃ names, m.resolve path = ofNames names ∧ ∀ n ∈ names,
      IsProper n ∧ (n ∈ segments m.cwd ∨ n ∈ Bytes.splitOn Path.slash path) :=
  ⟨m.wayTo path, resolve_eq hcwd path, fun _ hn => mem_wayTo hcwd hn⟩

/-- **A path is resolved to an absolute clean one.** -/
theorem isClean_resolve (hcwd : m.cwd = [] ∨ IsClean m.cwd) (path : Bytes) : IsClean (m.resolve path) := by
  rw [resolve_eq hcwd]
  exact Path.isClean_iff.2 ⟨_, fun _ hn => (mem_wayTo hcwd hn).1, rfl⟩

/-- An absolute clean path means itself. -/
theorem resolve_isClean (m : Machine) (h : IsClean path) : m.resolve path = path := by
  rw [resolve, if_pos h.1, h.2]

theorem Tidy.resolve (h : Tidy P unset m) (hpath : Path.Brings P path) :
    ∃ names, m.resolve path = ofNames names ∧ (∀ n ∈ names, IsProper n) ∧ ∀ n ∈ names, P n := by
  obtain ⟨names, hresolve, hnames⟩ := resolve_ofNames (h.cwd.imp_left And.left) path
  refine ⟨names, hresolve, fun n hn => (hnames n hn).1, fun n hn => ?_⟩
  obtain ⟨hproper, hway | hbrought⟩ := hnames n hn
  · exact h.way n hway
  · exact hpath n hbrought hproper

theorem tidy_edited {α : Type} {edit : Edit α} (events : α → List Event) (h : Tidy P unset m)
    (hroot : edit.root.Named P) : Tidy P unset (m.edited edit events).machine := by
  obtain ⟨root, result⟩ := edit
  cases result with
  | ok value => exact ⟨h.cwd, h.way, hroot⟩
  | error fault => exact ⟨h.cwd, h.way, hroot⟩

theorem tidy_makeDir (h : Tidy P unset m) (hpath : Path.Brings P path) :
    Tidy P unset (m.makeDir path).machine := by
  obtain ⟨names, hresolve, hproper, hnames⟩ := h.resolve hpath
  refine tidy_edited _ h (Folder.named_makeDir ?_ h.names)
  rwa [hresolve, Path.segments_ofNames hproper]

theorem tidy_put (h : Tidy P unset m) (hpath : Path.Brings P path) (data : Bytes) :
    Tidy P unset (m.put path data).machine := by
  obtain ⟨names, hresolve, hproper, hnames⟩ := h.resolve hpath
  refine tidy_edited _ h ?_
  rw [hresolve]
  exact Folder.named_put hproper hnames h.names data

theorem tidy_copy (h : Tidy P unset m) (hsource : Path.Brings P source)
    (htarget : Path.Brings P target) : Tidy P unset (m.copy source target).machine := by
  obtain ⟨from', hfrom, hproper, hnames⟩ := h.resolve hsource
  obtain ⟨to', hto, hproper', hnames'⟩ := h.resolve htarget
  refine tidy_edited _ h ?_
  rw [hfrom, hto]
  exact Folder.named_copy hproper hproper' (fun n hn => hn.elim (hnames n) (hnames' n)) h.names

theorem tidy_move (h : Tidy P unset m) (hsource : Path.Brings P source)
    (htarget : Path.Brings P target) : Tidy P unset (m.move source target).machine := by
  obtain ⟨from', hfrom, hproper, hnames⟩ := h.resolve hsource
  obtain ⟨to', hto, hproper', hnames'⟩ := h.resolve htarget
  refine tidy_edited _ h ?_
  rw [hfrom, hto]
  exact Folder.named_move hproper hproper' (fun n hn => hn.elim (hnames n) (hnames' n)) h.names

theorem tidy_remove (h : Tidy P unset m) (path : Bytes) : Tidy P unset (m.remove path).1 :=
  ⟨h.cwd, h.way, Folder.named_remove h.names _⟩

theorem tidy_changeDir (h : Tidy P unset m) (hpath : Path.Brings P path) :
    Tidy P unset (m.changeDir path).1 := by
  obtain ⟨names, hresolve, hproper, hnames⟩ := h.resolve hpath
  have hcwd : (m.changeDir path).1.cwd = ofNames names := hresolve
  refine ⟨Or.inr ?_, ?_, h.names⟩
  · exact isClean_resolve (h.cwd.imp_left And.left) path
  · rwa [hcwd, Path.segments_ofNames hproper]

/-! ## Runs -/

theorem tidy_withPath {check : Except PathFault Unit} {next : Unit → Outcome} (h : Tidy P unset m)
    (hnext : check = .ok () → Tidy P unset (next ()).machine) :
    Tidy P unset (m.withPath check next).machine := by
  cases check with
  | ok value => exact hnext rfl
  | error fault => exact h

theorem isPathText_of_checkPaths {operation : Bytes} (h : checkPaths operation source target = .ok ()) :
    isPathText source = true ∧ isPathText target = true := by
  unfold checkPaths at h
  cases hsource : checkPath operation source with
  | error fault =>
    rw [hsource] at h
    cases h
  | ok value =>
    rw [hsource] at h
    exact ⟨isPathText_of_checkPath hsource, isPathText_of_checkPath h⟩

/-- **A command keeps a machine tidy.** It looks at its paths first, so only names of paths that can be
written come into the tree. -/
theorem tidy_perform (htext : ∀ path, isPathText path = true → Path.Brings P path)
    (h : Tidy P unset m) (command : Command) (options : List CommandOption) :
    Tidy P unset (m.perform command options).machine := by
  cases command with
  | raw text => exact ⟨h.cwd, h.way, h.names⟩
  | echo text => exact ⟨h.cwd, h.way, h.names⟩
  | newline => exact ⟨h.cwd, h.way, h.names⟩
  | setEnv key value => exact ⟨h.cwd, h.way, h.names⟩
  | changeDir path =>
    exact tidy_withPath h fun hcheck => tidy_changeDir h (htext path (isPathText_of_checkPath hcheck))
  | writeFile path data =>
    exact tidy_withPath h fun hcheck => tidy_put h (htext path (isPathText_of_checkPath hcheck)) data
  | makeDir path =>
    exact tidy_withPath h fun hcheck => tidy_makeDir h (htext path (isPathText_of_checkPath hcheck))
  | copy source target =>
    refine tidy_withPath h fun hcheck => ?_
    obtain ⟨hsource, htarget⟩ := isPathText_of_checkPaths hcheck
    exact tidy_copy h (htext source hsource) (htext target htarget)
  | move source target =>
    refine tidy_withPath h fun hcheck => ?_
    obtain ⟨hsource, htarget⟩ := isPathText_of_checkPaths hcheck
    exact tidy_move h (htext source hsource) (htext target htarget)
  | remove path => exact tidy_withPath h fun _ => tidy_remove h path
  | missing => exact h
  | reference inner => exact h

/-- **A run keeps a machine tidy.** -/
theorem tidy_run (htext : ∀ path, isPathText path = true → Path.Brings P path) (h : Tidy P unset m)
    (statement : Statement) : Tidy P unset (m.run statement).machine := by
  refine run_keeps (I := Tidy P unset) (fun m command options hm _ => ?_) h statement
  exact tidy_perform htext hm command options

end Machine

/-! ## What can be done with a machine -/

/-- Something that is done with a machine from outside. -/
inductive Operation where
  | run (statement : Statement)
  | makeDir (path : Bytes)
  | put (path data : Bytes)
  | copy (source target : Bytes)
  | move (source target : Bytes)
  | remove (path : Bytes)

namespace Machine

/-- A machine after an operation, whether that went through or failed. -/
def does (m : Machine) : Operation → Machine
  | .run statement => (m.run statement).machine
  | .makeDir path => (m.makeDir path).machine
  | .put path data => (m.put path data).machine
  | .copy source target => (m.copy source target).machine
  | .move source target => (m.move source target).machine
  | .remove path => (m.remove path).1

/-- A machine after some operations. -/
def after (m : Machine) (operations : List Operation) : Machine := operations.foldl does m

/-- How a machine can start. -/
inductive Origin where
  | fresh
  | bare (cwd : Bytes)
  | zero
  deriving DecidableEq

/-- The machine at the start. -/
def Origin.machine : Origin → Machine
  | fresh => Machine.fresh
  | bare cwd => Machine.bare cwd
  | zero => Machine.zero

variable {P : Bytes → Prop} {unset : Prop} {m : Machine}

theorem tidy_does (hall : ∀ path, Path.Brings P path) (h : Tidy P unset m) (operation : Operation) :
    Tidy P unset (m.does operation) := by
  cases operation with
  | run statement => exact tidy_run (fun path _ => hall path) h statement
  | makeDir path => exact tidy_makeDir h (hall path)
  | put path data => exact tidy_put h (hall path) data
  | copy source target => exact tidy_copy h (hall source) (hall target)
  | move source target => exact tidy_move h (hall source) (hall target)
  | remove path => exact tidy_remove h path

/-- What each of some operations keeps, they keep one after the other. -/
theorem after_keeps {I : Machine → Prop} {operations : List Operation}
    (hstep : ∀ (m : Machine), ∀ operation ∈ operations, I m → I (m.does operation)) :
    ∀ m : Machine, I m → I (m.after operations) := by
  induction operations with
  | nil => exact fun _ h => h
  | cons operation rest ih =>
    intro m h
    have hfirst := hstep m operation List.mem_cons_self h
    exact ih (fun m operation hmem => hstep m operation (List.mem_cons_of_mem _ hmem)) _ hfirst

theorem tidy_after (hall : ∀ path, Path.Brings P path) (h : Tidy P unset m)
    (operations : List Operation) : Tidy P unset (m.after operations) := by
  refine after_keeps (I := Tidy P unset) (fun m operation _ hm => ?_) m h
  exact tidy_does hall hm operation

/-! ## Starts -/

theorem fresh_names : fresh.root.allNames = [bytes "home", bytes "travis"] := by decide +kernel

theorem fresh_way : segments fresh.cwd = [bytes "home", bytes "travis"] := by decide +kernel

/-- A fresh machine has two names. -/
theorem tidy_fresh (hhome : P (bytes "home")) (htravis : P (bytes "travis")) :
    Tidy P False fresh := by
  have hnames : ∀ n ∈ [bytes "home", bytes "travis"], P n := by simp [hhome, htravis]
  refine ⟨Or.inr ⟨by decide +kernel, by decide +kernel⟩, ?_, ?_⟩
  · rwa [fresh_way]
  · unfold Folder.Named
    rwa [fresh_names]

theorem tidy_bare (cwd : Bytes) : Tidy IsProper False (bare cwd) := by
  have habsolute : Path.isAbsolute (Path.slash :: cwd) = true := rfl
  have hproper := fun n hn => (Path.proper_reduce (Path.slash :: cwd) n hn).1
  have hcwd : (bare cwd).cwd = ofNames _ := Path.clean_of_isAbsolute habsolute
  refine ⟨Or.inr ?_, ?_, Folder.named_nil⟩
  · rw [hcwd]
    exact Path.isClean_iff.2 ⟨_, hproper, rfl⟩
  · rwa [hcwd, Path.segments_ofNames hproper]

theorem tidy_origin (origin : Origin) : Tidy IsProper (origin = .zero) origin.machine := by
  cases origin with
  | fresh =>
    have h : Tidy IsProper False fresh :=
      tidy_fresh ⟨⟨by decide, by decide⟩, by decide, by decide⟩ ⟨⟨by decide, by decide⟩, by decide, by decide⟩
    exact ⟨h.cwd.imp_left fun hunset => hunset.2.elim, h.way, h.names⟩
  | bare cwd =>
    have h := tidy_bare cwd
    exact ⟨h.cwd.imp_left fun hunset => hunset.2.elim, h.way, h.names⟩
  | zero =>
    have hway : segments zero.cwd = [] := by decide
    exact ⟨Or.inl ⟨rfl, rfl⟩, by rw [Origin.machine, hway]; exact nofun, Folder.named_nil⟩

/-! ## The states that can be reached -/

theorem brings_text {path : Bytes} (h : isPathText path = true) :
    Path.Brings (fun n => isPathText n = true) path := by
  intro n hn _
  have hparts : (Bytes.splitOn Path.slash path).all isPathText = true := by
    rw [isPathText_splitOn (by decide) (by decide), h]
  exact List.all_eq_true.1 hparts n hn

/-- A clean working directory can be written if the names on the way to it can. -/
theorem isPathText_cwd (h : Tidy (fun n => isPathText n = true) False m) :
    isPathText m.cwd = true := by
  obtain ⟨names, hproper, hnames⟩ := Path.isClean_iff.1 (h.cwd.resolve_left fun hunset => hunset.2)
  have hway := h.way
  rw [hnames, Path.segments_ofNames hproper] at hway
  rw [hnames, Path.isPathText_ofNames, List.all_eq_true]
  exact hway

/-- **What every reachable state looks like.** However a machine starts and whatever is done with it,
its working directory is an absolute clean path, or unset if the machine was started with nothing set
up, and every name at every depth of its tree is a proper one. If scripts were all that was run on a
fresh machine, the names and the working directory can moreover be written into a script. -/
theorem reached_state_well_formed :
    (∀ (origin : Origin) (operations : List Operation),
      (((origin.machine.after operations).cwd = [] ∧ origin = .zero) ∨
        (Path.isAbsolute (origin.machine.after operations).cwd = true ∧
          Path.clean (origin.machine.after operations).cwd =
            (origin.machine.after operations).cwd)) ∧
      ∀ name ∈ (origin.machine.after operations).root.allNames,
        name ≠ [] ∧ Path.slash ∉ name ∧ name ≠ Path.here ∧ name ≠ Path.up) ∧
    ∀ scripts : List Statement,
      (Utf8.valid (fresh.after (scripts.map .run)).cwd = true ∧
        0 ∉ (fresh.after (scripts.map .run)).cwd) ∧
      ∀ name ∈ (fresh.after (scripts.map .run)).root.allNames,
        Utf8.valid name = true ∧ 0 ∉ name := by
  constructor
  · intro origin operations
    have h := tidy_after (fun _ _ _ hproper => hproper) (tidy_origin origin) operations
    refine ⟨h.cwd, fun name hname => ?_⟩
    obtain ⟨⟨hne, hslash⟩, hhere, hup⟩ := h.names name hname
    exact ⟨hne, hslash, hhere, hup⟩
  · intro scripts
    have hstart : Tidy (fun n => isPathText n = true) False fresh :=
      tidy_fresh (by decide +kernel) (by decide +kernel)
    have h : Tidy (fun n => isPathText n = true) False (fresh.after (scripts.map .run)) := by
      refine after_keeps (fun m operation hmem hm => ?_) fresh hstart
      obtain ⟨script, -, rfl⟩ := List.mem_map.1 hmem
      exact tidy_run (fun _ => brings_text) hm script
    exact ⟨isPathText_iff.1 (isPathText_cwd h), fun name hname => isPathText_iff.1 (h.names name hname)⟩

/-- A file is put where cleaning takes half of the path away and no script could put it, and the root is
sent into itself. -/
def strayOperations : List Operation :=
  [.put ([255] ++ bytes "/.././x//" ++ [0]) [], .move (bytes "/") (bytes "..//"),
    .copy (bytes "x/..") (bytes "x")]

/-- Scripts that make a directory, fail to make one and change into the first. -/
def strayScripts : List Statement :=
  [.action (.makeDir (bytes "a/../ü")) [], .action (.makeDir [255]) [],
    .action (.changeDir (bytes "./ü/.")) []]

/-- A name that only operations bring, on a machine whose working directory was never set, and one that
a script brings. -/
theorem reached_state_well_formed_sample :
    (zero.after strayOperations).cwd = [] ∧ (zero.after strayOperations).root.allNames = [bytes "x", [0]] ∧
    ([0] ≠ ([] : Bytes) ∧ Path.slash ∉ ([0] : Bytes) ∧ [0] ≠ Path.here ∧ [0] ≠ Path.up) ∧
    (fresh.after (strayScripts.map .run)).cwd = bytes "/home/travis/ü" ∧
    (fresh.after (strayScripts.map .run)).root.allNames = [bytes "home", bytes "travis", bytes "ü"] ∧
    Utf8.valid (bytes "ü") = true ∧ 0 ∉ bytes "ü" := by
  obtain ⟨hreached, hscripts⟩ := reached_state_well_formed
  have hzero : (zero.after strayOperations).root.allNames = [bytes "x", [0]] := by decide +kernel
  have hfresh : (fresh.after (strayScripts.map .run)).root.allNames =
      [bytes "home", bytes "travis", bytes "ü"] := by decide +kernel
  refine ⟨by decide +kernel, hzero, (hreached .zero strayOperations).2 [0] ?_, by decide +kernel, hfresh,
    (hscripts strayScripts).2 (bytes "ü") ?_⟩
  · rw [Origin.machine, hzero]
    simp
  · rw [hfresh]
    simp

end Machine

end BuildScript
