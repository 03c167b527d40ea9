import BuildScript.Proofs.Files.Listing
import BuildScript.Proofs.Machine.Move

/-!
# What a machine lists

A machine shows its tree as a list of paths, with a slash after those of directories. The list tells all
that is there and of which kind it is. It is in the order of places, which is that of bytes for most trees
but not for all of them.

* `paths_list_everything`: **the list is complete**, without repetitions, each directory before what is below
  it, and it tells the directories and the files.
* `paths_order_exactly`: **the order of the list**, and when it is that of bytes. `paths_out_of_order`: not
  always.
-/

namespace BuildScript.Machine

open BuildScript.Path (segments IsProper IsClean ofNames)

variable {m : Machine} {p : Bytes}

theorem hasDirectory_root (m : Machine) : m.hasDirectory Path.root = true := by
  have hclean : IsClean Path.root := Path.isClean_iff.2 ⟨[], List.forall_mem_nil _, rfl⟩
  rw [hasDirectory_iff, resolve_isClean m hclean]
  exact Folder.kinds_nil m.root

/-- What is listed of a clean path, whatever is there. -/
theorem Reachable.mem_paths_iff (hm : m.Reachable) (h : IsClean p) :
    (p ++ Path.root ∈ m.root.paths ↔ p ≠ Path.root ∧ m.hasDirectory p = true) ∧
      (p ∈ m.root.paths ↔ m.hasFile p = true) := by
  obtain ⟨names, hproper, rfl⟩ := Path.isClean_iff.1 h
  have htop : ofNames names = Path.root ↔ names = [] :=
    Path.ofNames_inj hproper (List.forall_mem_nil _)
  have hlisted := Folder.mem_paths_iff hm.sound.ordered hm.named hproper
  rw [hasDirectory_iff, hasFile_iff, resolve_isClean m h, Path.segments_ofNames hproper, Ne, htop]
  refine ⟨hlisted .dir, ?_⟩
  have hfile := hlisted .file
  rw [if_neg (by decide), List.append_nil] at hfile
  rw [hfile, and_iff_right_iff_imp]
  -- the root is no file
  rintro hkind rfl
  rw [Folder.kinds_nil] at hkind
  cases hkind

/-- **The list of paths is complete.** A path with a slash after it is listed exactly if it is that of a
directory other than the root, and a path as it is exactly if it is that of a file. Nothing else is listed,
nothing is listed twice, and a directory is listed before all that is below it. So two machines that list
the same paths have the same directories and the same files. -/
theorem paths_list_everything (hm : m.Reachable) :
    (∀ p, IsClean p →
      (p ++ Path.root ∈ m.root.paths ↔ p ≠ Path.root ∧ m.hasDirectory p = true) ∧
      (p ∈ m.root.paths ↔ m.hasFile p = true)) ∧
    (∀ path ∈ m.root.paths, ∃ p, IsClean p ∧ (path = p ∨ path = p ++ Path.root)) ∧
    m.root.paths.Nodup ∧
    (∀ p, IsClean p → p ≠ Path.root → ∀ path ∈ m.root.paths, Folder.isBelow path p = true →
      path ≠ p ++ Path.root → [p ++ Path.root, path].Sublist m.root.paths) ∧
    ∀ other : Machine, other.Reachable → other.root.paths = m.root.paths → ∀ p, IsClean p →
      other.hasDirectory p = m.hasDirectory p ∧ other.hasFile p = m.hasFile p := by
  have hordered := hm.sound.ordered
  have hnamed := hm.named
  refine ⟨fun p h => hm.mem_paths_iff h, ?_, Folder.nodup_paths hordered hnamed, ?_, ?_⟩
  · intro path hpath
    obtain ⟨place, kind, -, -, hproper, rfl⟩ := Folder.exists_listed hordered hnamed hpath
    refine ⟨ofNames place, Path.isClean_iff.2 ⟨place, hproper, rfl⟩, ?_⟩
    cases kind with
    | dir => exact Or.inr rfl
    | file => exact Or.inl (List.append_nil _)
  · intro p h htop path hpath hbelow hother
    obtain ⟨names, hproper, rfl⟩ := Path.isClean_iff.1 h
    have hne : names ≠ [] := by
      rintro rfl
      exact htop rfl
    exact Folder.pair_sublist_paths hordered hnamed hne hproper hpath hother hbelow
  · intro other hother hpaths p h
    obtain ⟨hdir, hfile⟩ := hm.mem_paths_iff h
    obtain ⟨hdir', hfile'⟩ := hother.mem_paths_iff h
    rw [hpaths] at hdir' hfile'
    refine ⟨Bool.eq_iff_iff.2 ?_, Bool.eq_iff_iff.2 (hfile'.symm.trans hfile)⟩
    -- the root is not listed, and there in every machine
    by_cases htop : p = Path.root
    · rw [htop]
      exact iff_of_true (hasDirectory_root other) (hasDirectory_root m)
    · exact (and_congr_right_iff.1 (hdir'.symm.trans hdir)) htop

theorem paths_list_everything_sample :
    twoTrees.root.paths = [bytes "/d/", bytes "/d/s/", bytes "/d/s/k", bytes "/d/s/x/", bytes "/d/s/x/y/",
      bytes "/s/", bytes "/s/x"] ∧
    twoTrees.hasDirectory (bytes "/d/s/x") = true ∧ twoTrees.hasFile (bytes "/d/s/k") = true ∧
    twoTrees.hasFile (bytes "/d/s/x") = false ∧
    [bytes "/d/s/", bytes "/d/s/x/y/"].Sublist twoTrees.root.paths := by
  obtain ⟨hlisted, -, -, hfirst, -⟩ := paths_list_everything twoTrees_reachable
  have hdir := (hlisted (bytes "/d/s/x") (by decide +kernel)).1.1 (by decide +kernel)
  have hfile := (hlisted (bytes "/d/s/k") (by decide +kernel)).2.1 (by decide +kernel)
  have hnone := (hlisted (bytes "/d/s/x") (by decide +kernel)).2.not.1 (by decide +kernel)
  refine ⟨by decide +kernel, hdir.2, hfile, Bool.eq_false_iff.2 hnone, ?_⟩
  exact hfirst (bytes "/d/s") (by decide +kernel) (by decide +kernel) (bytes "/d/s/x/y/")
    (by decide +kernel) (by decide +kernel) (by decide +kernel)

/-! ## The order of the list -/

/-- **The order of the list.** The paths are listed in the order of their places, compared name by name. They
are in byte order exactly if no directory has a sibling whose name goes on after its own with a byte below
the slash. -/
theorem paths_order_exactly (hm : m.Reachable) :
    (m.root.paths.map segments).Pairwise Precedes ∧
      ((m.root.paths.Pairwise fun a b => Bytes.before a b = true) ↔ m.root.SlashFirst) :=
  ⟨Folder.pairwise_segments_paths hm.sound.ordered hm.named,
    Folder.paths_sorted_iff hm.sound.ordered hm.named⟩

/-- A directory beside a file whose name goes on with an exclamation mark, which is below the slash. -/
def marked : Machine :=
  zero.after [.put (bytes "/a/x") (bytes "1"), .put (bytes "/a!") (bytes "2")]

theorem marked_reachable : marked.Reachable := ⟨.zero, _, rfl⟩

/-- Nothing in `twoTrees` stands in the way of a slash, and something in `marked` does. -/
theorem paths_order_exactly_sample : twoTrees.root.SlashFirst ∧ ¬ marked.root.SlashFirst := by
  constructor
  · exact (paths_order_exactly twoTrees_reachable).2.1 (by decide +kernel)
  · exact (paths_order_exactly marked_reachable).2.not.1 (by decide +kernel)

/-- **The list need not be in byte order**: a directory and what is in it can come before a sibling with a
smaller path. -/
theorem paths_out_of_order :
    marked.Reachable ∧ marked.root.paths = [bytes "/a/", bytes "/a/x", bytes "/a!"] ∧
    Bytes.before (bytes "/a!") (bytes "/a/") = true ∧
    ¬ marked.root.paths.Pairwise fun a b => Bytes.before a b = true :=
  ⟨marked_reachable, by decide +kernel, by decide +kernel, by decide +kernel⟩

end BuildScript.Machine
