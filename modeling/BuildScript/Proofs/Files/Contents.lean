import BuildScript.Proofs.Files.Kinds
import Mathlib.Data.List.Infix

/-!
# What is at each place, with what files hold

The kinds that a tree shows do not tell what is in its files. Its contents do: at each place nothing, a
directory, or a file with what it holds.

* `Node`, `Contents`: what can be at a place, and what is at each. `Folder.contents`, `Entry.contents`.
* `Contents.reach`: how far along a way there is something.
* `Contents.merged`: a directory merged into another one, told without the trees. `merged_merged`: doing so
  twice is doing so once. `merged_kind_iff`: **what keeps its kind** when that is done.
* `contents_insertAt`, `contents_overlay`: **an entry put into a folder, and one tree laid over another.**
-/

namespace BuildScript

/-- What can be at a place. -/
inductive Node where
  /-- A file, with what it holds. -/
  | file (data : Bytes)
  | dir
  deriving Repr, DecidableEq

/-- The kind of what is at a place. -/
def Node.kind : Node → Kind
  | file _ => .file
  | dir => .dir

/-- What is at each place. -/
abbrev Contents := List Bytes → Option Node

namespace Contents

/-- What is at the places below one place. -/
def below (contents : Contents) (place : List Bytes) : Contents := fun rest => contents (place ++ rest)

/-- The longest beginning of a way at which there is something. -/
def reach (contents : Contents) (way : List Bytes) : List Bytes :=
  (way.inits.filter fun part => (contents part).isSome).getLast?.getD []

/-- What is at each place when one directory is merged into another. What is in the source is there
afterwards. What is only in the target stays if the source ends, on the way to it, at a place where
both have a directory. -/
def merged (source target : Contents) : Contents := fun rest =>
  match source rest with
  | some node => some node
  | none =>
    if source (source.reach rest) = some .dir ∧ target (source.reach rest) = some .dir then target rest
    else none

variable {contents source target : Contents} {name : Bytes} {rest : List Bytes}

/-! ## How far a way leads -/

theorem reach_of_none (h : ∀ part, contents (name :: part) = none) :
    contents.reach (name :: rest) = [] := by
  have hnone : (rest.inits.map (name :: ·)).filter (fun part => (contents part).isSome) = [] := by
    rw [List.filter_eq_nil_iff]
    intro part hpart
    obtain ⟨tail, -, rfl⟩ := List.mem_map.1 hpart
    rw [h tail]
    exact Bool.false_ne_true
  rw [reach, List.inits_cons, List.filter_cons, hnone]
  split <;> rfl

/-- If something is at the first name, the way leads on from there. -/
theorem reach_of_isSome (h : (contents [name]).isSome = true) :
    contents.reach (name :: rest) = name :: (contents.below [name]).reach rest := by
  have hmap : (rest.inits.map (name :: ·)).filter (fun part => (contents part).isSome) =
      (rest.inits.filter fun part => (contents.below [name] part).isSome).map (name :: ·) :=
    List.filter_map
  have hmem : [] ∈ rest.inits.filter fun part => (contents.below [name] part).isSome := by
    rw [List.mem_filter]
    exact ⟨(List.mem_inits _ _).2 List.nil_prefix, h⟩
  obtain ⟨last, hlast⟩ := Option.isSome_iff_exists.1 (List.getLast?_isSome.2 (List.ne_nil_of_mem hmem))
  have hlong : ((rest.inits.filter fun part => (contents.below [name] part).isSome).map
      (name :: ·)).getLast? = some (name :: last) := by
    rw [List.getLast?_map, hlast, Option.map_some]
  have hne := List.ne_nil_of_mem (List.mem_of_getLast? hlong)
  rw [reach, reach, List.inits_cons, List.filter_cons, hmap, hlast, Option.getD_some]
  split
  · rw [List.getLast?_cons_of_ne_nil hne, hlong, Option.getD_some]
  · rw [hlong, Option.getD_some]

theorem pairwise_inits (way : List Bytes) : way.inits.Pairwise (· <+: ·) := by
  induction way with
  | nil => exact List.pairwise_singleton _ _
  | cons name rest ih =>
    rw [List.inits_cons, List.pairwise_cons, List.pairwise_map]
    refine ⟨fun part _ => List.nil_prefix, ih.imp fun hpart => ?_⟩
    exact List.cons_prefix_cons.2 ⟨rfl, hpart⟩

/-- **A way reaches the longest of its beginnings** at which there is something. -/
theorem reach_longest (h : (contents []).isSome = true) (way : List Bytes) :
    contents.reach way <+: way ∧ (contents (contents.reach way)).isSome = true ∧
      ∀ part, part <+: way → (contents part).isSome = true → part <+: contents.reach way := by
  have hsome : ∀ part, part ∈ way.inits.filter (fun part => (contents part).isSome) ↔
      part <+: way ∧ (contents part).isSome = true := by
    intro part
    rw [List.mem_filter, List.mem_inits]
  have hne := List.ne_nil_of_mem ((hsome []).2 ⟨List.nil_prefix, h⟩)
  obtain ⟨last, hlast⟩ := Option.isSome_iff_exists.1 (List.getLast?_isSome.2 hne)
  have hreach : contents.reach way = last := by rw [reach, hlast, Option.getD_some]
  obtain ⟨hway, hthere⟩ := (hsome last).1 (List.mem_of_getLast? hlast)
  have hsorted := (pairwise_inits way).filter fun part => (contents part).isSome
  obtain ⟨init, hinit⟩ := List.getLast?_eq_some_iff.1 hlast
  rw [hreach]
  refine ⟨hway, hthere, fun part hpart hthere => ?_⟩
  have hmem := (hsome part).2 ⟨hpart, hthere⟩
  rw [hinit] at hmem hsorted
  rcases List.mem_append.1 hmem with hinit | hlast
  · exact (List.pairwise_append.1 hsorted).2.2 part hinit last (List.mem_singleton_self last)
  · rw [List.mem_singleton.1 hlast]

/-! ## Merging -/

/-- Merging brings nothing from a target that has no directory. -/
theorem merged_of_no_dir (h : ∀ part, target part ≠ some .dir) : source.merged target = source := by
  funext rest
  unfold merged
  cases hsource : source rest with
  | some node => rfl
  | none => exact if_neg fun hboth => h _ hboth.2

/-- A name that only the target has. -/
theorem merged_of_none (hsource : source [] = some .dir) (htarget : target [] = some .dir)
    (h : ∀ part, source (name :: part) = none) :
    source.merged target (name :: rest) = target (name :: rest) := by
  have hreach : source.reach (name :: rest) = [] := reach_of_none h
  unfold merged
  rw [h rest, hreach]
  exact if_pos ⟨hsource, htarget⟩

/-- A name that the source has. -/
theorem merged_of_isSome (h : (source [name]).isSome = true) :
    source.merged target (name :: rest) =
      (source.below [name]).merged (target.below [name]) rest := by
  unfold merged
  rw [reach_of_isSome h]
  rfl

/-- **Merging the same source again** changes nothing: what it brings is there, and where it ends at a
directory, there is a directory now. -/
theorem merged_merged (source target : Contents) :
    source.merged (source.merged target) = source.merged target := by
  funext rest
  cases hsource : source rest with
  | some node => simp only [merged, hsource]
  | none =>
    by_cases hend : source (source.reach rest) = some .dir
    · have hnow : source.merged target (source.reach rest) = some .dir := by
        simp only [merged, hend]
      rw [merged, hsource]
      exact if_pos ⟨hend, hnow⟩
    · simp only [merged, hsource, hend, false_and, if_false]

/-- Above whatever is there, there are directories. -/
def IsTree (contents : Contents) : Prop :=
  ∀ place rest, rest ≠ [] → (contents (place ++ rest)).isSome = true → contents place = some .dir

/-- Where both have something at a place, it is of one kind. -/
def AgreeAt (source target : Contents) (place : List Bytes) : Prop :=
  ∀ a b, source place = some a → target place = some b → a.kind = b.kind

/-- The places on the way to what is there are directories. -/
theorem IsTree.dir_of_prefix (h : contents.IsTree) {part : List Bytes} (hpart : part <+: rest)
    (hne : part ≠ rest) (hrest : (contents rest).isSome = true) : contents part = some .dir := by
  obtain ⟨more, rfl⟩ := hpart
  exact h part more (fun hnil => hne (by rw [hnil, List.append_nil])) hrest

/-- **What merging leaves of the target**: what is at a place keeps its kind exactly if the two agree on
the way to it. -/
theorem merged_kind_iff (hsource : source.IsTree) (htarget : target.IsTree)
    (htop : (source []).isSome = true) {node : Node} (h : target rest = some node) :
    (source.merged target rest).map Node.kind = some node.kind ↔
      ∀ part, part <+: rest → source.AgreeAt target part := by
  have hthere : (target rest).isSome = true := by rw [h]; rfl
  unfold merged
  cases hrest : source rest with
  | some new =>
    -- before the end of the way both have directories
    rw [Option.map_some, Option.some.injEq]
    constructor
    · intro hkind part hpart a b ha hb
      by_cases hne : part = rest
      · subst hne
        rw [hrest, Option.some.injEq] at ha
        rw [h, Option.some.injEq] at hb
        rw [← ha, ← hb, hkind]
      · rw [hsource.dir_of_prefix hpart hne (by rw [hrest]; rfl), Option.some.injEq] at ha
        rw [htarget.dir_of_prefix hpart hne hthere, Option.some.injEq] at hb
        rw [← ha, ← hb]
    · intro hagree
      exact hagree rest List.prefix_rfl new node hrest h
  | none =>
    -- the source ends on the way, and the target has a directory there
    obtain ⟨hreach, hsome, hlongest⟩ := reach_longest htop rest
    have hends : source.reach rest ≠ rest := by
      intro heq
      rw [heq, hrest] at hsome
      cases hsome
    have hdir := htarget.dir_of_prefix hreach hends hthere
    simp only [hdir, and_true]
    constructor
    · intro hkind part hpart a b ha hb
      have hend : source (source.reach rest) = some .dir := by
        by_contra hfile
        rw [if_neg hfile] at hkind
        cases hkind
      have hbefore : part <+: source.reach rest := hlongest part hpart (by rw [ha]; rfl)
      have hshort : part ≠ rest := fun heq => by rw [heq, hrest] at ha; cases ha
      have hnew : source part = some .dir := by
        by_cases heq : part = source.reach rest
        · rw [heq, hend]
        · exact hsource.dir_of_prefix hbefore heq hsome
      rw [hnew, Option.some.injEq] at ha
      rw [htarget.dir_of_prefix hpart hshort hthere, Option.some.injEq] at hb
      rw [← ha, ← hb]
    · intro hagree
      obtain ⟨last, hlast⟩ := Option.isSome_iff_exists.1 hsome
      have hkind := hagree _ hreach last .dir hlast hdir
      have hend : last = .dir := by
        cases last with
        | file data => cases hkind
        | dir => rfl
      rw [if_pos (by rw [hlast, hend]), h, Option.map_some]

end Contents

namespace Entry

/-- What an entry is, and what it holds if it is a file. -/
def node : Entry → Node
  | .file data => .file data
  | .dir _ => .dir

/-- What is at each place below an entry. -/
def contents (entry : Entry) : Contents := fun place => (entry.walk place).map node

end Entry

namespace Folder

variable {folder inner : Folder} {entry : Entry} {name : Bytes} {place : List Bytes}

/-- What is at each place of a tree. -/
def contents (folder : Folder) : Contents := (Entry.dir folder).contents

theorem kinds_eq_contents (folder : Folder) (place : List Bytes) :
    folder.kinds place = (folder.contents place).map Node.kind := by
  have hkind : Entry.kind = Node.kind ∘ Entry.node := by
    funext entry
    cases entry <;> rfl
  rw [contents, Entry.contents, Option.map_map, ← hkind]
  rfl

theorem contents_eq_dir_iff : folder.contents place = some .dir ↔ folder.kinds place = some .dir := by
  rw [kinds_eq_contents]
  cases folder.contents place with
  | none => simp
  | some node => cases node <;> simp [Node.kind]

theorem contents_append (folder : Folder) (place rest : List Bytes) :
    folder.contents (place ++ rest) = (folder.walk place).bind (·.contents rest) := by
  simp only [contents, Entry.contents, Entry.walk, walk_append]
  cases folder.walk place <;> rfl

/-- Below an entry is what the entry holds. -/
theorem contents_below (h : folder.walk place = some entry) :
    folder.contents.below place = entry.contents := by
  funext rest
  rw [Contents.below, contents_append, h, Option.bind_some]

/-- There is no directory below a place where none is. -/
theorem contents_append_ne_dir (h : folder.kinds place ≠ some .dir) (rest : List Bytes) :
    folder.contents (place ++ rest) ≠ some .dir := by
  rw [Ne, contents_eq_dir_iff]
  by_cases hrest : rest = []
  · rwa [hrest, List.append_nil]
  · rw [kinds_append_of_ne_dir h hrest]
    exact nofun

theorem isTree_contents (folder : Folder) : folder.contents.IsTree := by
  intro place rest hne hsome
  rw [contents_eq_dir_iff]
  by_contra hfile
  have hnone := kinds_append_of_ne_dir hfile hne
  rw [kinds_eq_contents, Option.map_eq_none_iff] at hnone
  rw [hnone] at hsome
  cases hsome

theorem isTree_below (folder : Folder) (place : List Bytes) :
    (folder.contents.below place).IsTree := by
  intro part rest hne hsome
  rw [Contents.below, ← List.append_assoc] at hsome
  exact isTree_contents folder _ rest hne hsome

/-- **An entry put into the folder at a place.** -/
theorem contents_insertAt (h : folder.kinds place = some .dir) (name : Bytes) (entry : Entry)
    (other : List Bytes) :
    (update (insert name entry) place folder).contents other =
      if place ++ [name] <+: other then entry.contents (other.drop (place ++ [name]).length)
      else folder.contents other := by
  have hchange : ∀ inner, folder.walk place = some (.dir inner) → ∀ key,
      find? key (insert name entry inner) = if key = name then some entry else find? key inner :=
    fun inner _ key => find?_insert key name entry inner
  have hshown := shown_changeAt (f := Entry.node) (fun _ _ => rfl) hchange other
  simp only [h, true_and] at hshown
  exact hshown

theorem contents_entry_name (entry : Entry) (name : Bytes) (rest : List Bytes) :
    entry.contents (name :: rest) = (entry.walk [name]).bind (·.contents rest) := by
  simp only [Entry.contents, walk_entry_name entry name rest, Option.map_bind, Function.comp_def]

/-! ## One tree laid over another -/

theorem overlay_of_ne_dir {old? : Option Entry} (h : ∀ outer, old? ≠ some (.dir outer))
    (entry : Entry) : overlay entry old? = entry := by
  cases entry with
  | file data => rfl
  | dir inner =>
    match old? with
    | none | some (.file _) => rfl
    | some (.dir outer) => exact absurd rfl (h outer)

/-- What is not a directory lets nothing through. -/
theorem contents_ne_dir {old? : Option Entry} (h : ∀ outer, old? ≠ some (.dir outer))
    (place : List Bytes) : old?.bind (·.contents place) ≠ some .dir := by
  match old? with
  | none => exact nofun
  | some (.dir outer) => exact absurd rfl (h outer)
  | some (.file data) => cases place <;> exact nofun

/-- A file laid over a directory. -/
theorem merged_file (data : Bytes) (target : Contents) :
    (Entry.file data).contents.merged target = (Entry.file data).contents := by
  funext place
  cases place with
  | nil => rfl
  | cons name rest =>
    have hreach : (Entry.file data).contents.reach (name :: rest) = [] :=
      Contents.reach_of_none fun _ => rfl
    -- the source ends at the file, so nothing of the target stays
    have hnone : (Entry.file data).contents (name :: rest) = none := rfl
    unfold Contents.merged
    rw [hreach, hnone]
    exact if_neg fun hboth => nomatch hboth.1

/-- **One tree laid over another.** -/
theorem contents_overlay (hentry : entry.ordered = true) (old? : Option Entry) :
    (overlay entry old?).contents =
      entry.contents.merged fun rest => old?.bind (·.contents rest) := by
  funext place
  induction place generalizing entry old? with
  | nil =>
    cases entry with
    | file data => rfl
    | dir inner =>
      match old? with
      | none | some (.file _) | some (.dir _) => rfl
  | cons name rest ih =>
    by_cases hdir : ∃ outer, old? = some (.dir outer)
    · obtain ⟨outer, rfl⟩ := hdir
      cases entry with
      | file data => exact congrFun (merged_file data _).symm _
      | dir inner =>
        have hover := walk_overlay hentry (some (.dir outer)) name
        rw [contents_entry_name, hover]
        cases hfound : find? name inner with
        | none =>
          have hnone : ∀ part, (Entry.dir inner).contents (name :: part) = none := by
            intro part
            rw [contents_entry_name]
            exact congrArg (Option.bind · (·.contents part)) hfound
          rw [Contents.merged_of_none rfl rfl hnone]
          exact (contents_entry_name (.dir outer) name rest).symm
        | some found =>
          have hsome : ((Entry.dir inner).contents [name]).isSome = true := by
            have hwalk : (Entry.dir inner).walk [name] = some found := hfound
            rw [Entry.contents, hwalk]
            rfl
          have hsource : (Entry.dir inner).contents.below [name] = found.contents :=
            contents_below hfound
          have htarget : (Contents.below (fun rest => (some (Entry.dir outer)).bind (·.contents rest)))
              [name] = fun rest => (find? name outer).bind (·.contents rest) :=
            funext (contents_entry_name (.dir outer) name)
          rw [Contents.merged_of_isSome hsome, hsource, htarget]
          exact ih (ordered_find? hentry hfound) (find? name outer)
    · have hne : ∀ outer, old? ≠ some (.dir outer) := fun outer h => hdir ⟨outer, h⟩
      rw [overlay_of_ne_dir hne, Contents.merged_of_no_dir (contents_ne_dir hne)]

end Folder

end BuildScript
