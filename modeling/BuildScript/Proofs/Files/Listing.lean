import BuildScript.Proofs.Files.Kinds
import BuildScript.Proofs.Files.Names
import BuildScript.Proofs.Path.Absolute
import Mathlib.Data.List.Lex
import Mathlib.Data.List.Nodup

/-!
# What a listing of a tree holds, and in which order

A listing goes through a tree folder by folder, in each by the order of names. It comes to every place of
the tree once, and to the places in the order in which they are compared name by name. That is not the
order of their paths as texts: between a directory and what is in it stands a slash, and a sibling whose
name goes on with a smaller byte sorts before that slash.

* `Precedes`: places compared name by name. `precedes_cases`: one is above the other, or the first names
  that differ decide.
* `mem_listing_iff`: **a listing holds exactly what is in the tree.** `pairwise_listingAt`: **it goes by the
  order of places.**
* `listedPath_eq`: joining names one by one gives the path of a place. `segments_pathOf`: it tells the place.
* `mem_paths_iff`, `nodup_paths`, `pair_sublist_paths`: the
  paths of a tree.
* `before_pathOf_below`, `before_pathOf_beside`: when the paths of two places are in byte order.
  `SlashFirst`, `paths_sorted_iff`: **when all paths of a tree are.**
-/

namespace BuildScript

open BuildScript.Path (segments IsProper ofNames)

/-! ## The order of places -/

/-- One place comes before another when their names are compared one by one: a place comes before those
below it, and elsewhere the byte order of the first names that differ decides. -/
abbrev Precedes : List Bytes → List Bytes → Prop := List.Lex fun a b => Bytes.before a b = true

theorem Bytes.before_asymm {a b : Bytes} (h : before a b = true) : ¬ before b a = true := by
  intro hba
  have hself := before_trans h hba
  rw [before_irrefl] at hself
  cases hself

theorem Precedes.asymm {a b : List Bytes} (h : Precedes a b) : ¬ Precedes b a := by
  induction h with
  | nil => exact fun hba => nomatch hba
  | cons _ ih =>
    intro hba
    cases hba with
    | cons hrest => exact ih hrest
    | rel hname => exact Bytes.before_asymm hname hname
  | rel hname =>
    intro hba
    cases hba with
    | cons _ => exact Bytes.before_asymm hname hname
    | rel hname' => exact Bytes.before_asymm hname hname'

theorem Precedes.ne {a b : List Bytes} (h : Precedes a b) : a ≠ b := by
  rintro rfl
  exact h.asymm h

theorem precedes_append (place : List Bytes) {rest : List Bytes} (hne : rest ≠ []) :
    Precedes place (place ++ rest) := by
  obtain ⟨name, more, rfl⟩ := List.exists_cons_of_ne_nil hne
  have hbelow := List.Lex.append_left (fun a b => Bytes.before a b = true)
    (List.Lex.nil (a := name) (l := more)) place
  rwa [List.append_nil] at hbelow

theorem precedes_beside {name other : Bytes} (h : Bytes.before name other = true)
    (above more rest : List Bytes) : Precedes (above ++ name :: more) (above ++ other :: rest) := by
  apply List.Lex.append_left
  exact List.Lex.rel h

/-- A place comes before another one that is below it, or whose first other name comes later. -/
theorem precedes_cases {a b : List Bytes} (h : Precedes a b) :
    (∃ rest, rest ≠ [] ∧ b = a ++ rest) ∨
      ∃ above name more other rest, a = above ++ name :: more ∧ b = above ++ other :: rest ∧
        Bytes.before name other = true := by
  induction h with
  | nil => exact Or.inl ⟨_, List.cons_ne_nil _ _, rfl⟩
  | @cons first _ _ _ ih =>
    rcases ih with ⟨rest, hne, rfl⟩ | ⟨above, name, more, other, rest, rfl, rfl, hname⟩
    · exact Or.inl ⟨rest, hne, rfl⟩
    · exact Or.inr ⟨first :: above, name, more, other, rest, rfl, rfl, hname⟩
  | rel hname => exact Or.inr ⟨[], _, _, _, _, rfl, rfl, hname⟩

namespace Folder

variable {folder : Folder} {place base : List Bytes} {data? : Option Bytes} {name : Bytes} {entry : Entry}

/-! ## What a listing holds -/

theorem walk_first (name : Bytes) (entry : Entry) (folder : Folder) (key : Bytes) (rest : List Bytes) :
    walk ((name, entry) :: folder) (key :: rest) =
      if name = key then entry.walk rest else folder.walk (key :: rest) := by
  rw [walk_name, walk_name, find?]
  split <;> rfl

mutual
theorem mem_entryListing (entry : Entry) (hentry : entry.ordered = true) (base place : List Bytes)
    (data? : Option Bytes) : (place, data?) ∈ entryListing base entry ↔
      ∃ rest, place = base ++ rest ∧ (entry.walk rest).map Entry.data? = some data? := by
  cases entry with
  | file data =>
    rw [entryListing, List.mem_singleton, Prod.mk.injEq]
    constructor
    · rintro ⟨rfl, rfl⟩
      exact ⟨[], (List.append_nil place).symm, rfl⟩
    · rintro ⟨rest, rfl, hwalk⟩
      cases rest with
      | nil => exact ⟨List.append_nil base, (Option.some.inj hwalk).symm⟩
      | cons key rest => cases hwalk
  | dir inner =>
    have hinner := mem_listingAt inner hentry base place data?
    rw [entryListing, List.mem_cons, hinner, Prod.mk.injEq]
    constructor
    · rintro (⟨rfl, rfl⟩ | ⟨rest, -, hplace, hwalk⟩)
      · exact ⟨[], (List.append_nil place).symm, congrArg (Option.map Entry.data?) (walk_nil inner)⟩
      · exact ⟨rest, hplace, hwalk⟩
    · rintro ⟨rest, hplace, hwalk⟩
      by_cases hrest : rest = []
      · subst hrest
        rw [Entry.walk, walk_nil] at hwalk
        exact Or.inl ⟨hplace.trans (List.append_nil base), (Option.some.inj hwalk).symm⟩
      · exact Or.inr ⟨rest, hrest, hplace, hwalk⟩
/-- **A listing holds what is below the place** at which it starts, and the contents of the files. -/
theorem mem_listingAt (folder : Folder) (hfolder : folder.ordered = true) (base place : List Bytes)
    (data? : Option Bytes) : (place, data?) ∈ listingAt base folder ↔
      ∃ rest, rest ≠ [] ∧ place = base ++ rest ∧ (folder.walk rest).map Entry.data? = some data? := by
  cases folder with
  | nil =>
    constructor
    · intro h
      rw [listingAt] at h
      cases h
    · rintro ⟨rest, hne, -, hwalk⟩
      rw [walk_empty hne] at hwalk
      cases hwalk
  | cons head others =>
    obtain ⟨name, entry⟩ := head
    obtain ⟨hbefore, hentry, hothers⟩ := ordered_cons.1 hfolder
    have hfirst := mem_entryListing entry hentry (base ++ [name]) place data?
    have hlater := mem_listingAt others hothers base place data?
    rw [listingAt, List.mem_append, hfirst, hlater]
    constructor
    · rintro (⟨rest, rfl, hwalk⟩ | ⟨rest, hne, hplace, hwalk⟩)
      · refine ⟨name :: rest, List.cons_ne_nil _ _, by simp, ?_⟩
        rw [walk_first, if_pos rfl, hwalk]
      · refine ⟨rest, hne, hplace, ?_⟩
        obtain ⟨key, rest, rfl⟩ := List.exists_cons_of_ne_nil hne
        -- the first name is not among the others
        have hother : name ≠ key := by
          rintro rfl
          rw [walk_name, find?_of_before hbefore] at hwalk
          cases hwalk
        rw [walk_first, if_neg hother, hwalk]
    · rintro ⟨rest, hne, hplace, hwalk⟩
      obtain ⟨key, rest, rfl⟩ := List.exists_cons_of_ne_nil hne
      rw [walk_first] at hwalk
      split at hwalk
      · next heq => exact Or.inl ⟨rest, by rw [hplace, heq]; simp, hwalk⟩
      · exact Or.inr ⟨key :: rest, hne, hplace, hwalk⟩
end

/-- **A listing holds exactly what is in the tree.** -/
theorem mem_listing_iff (h : folder.ordered = true) : (place, data?) ∈ folder.listing ↔
    place ≠ [] ∧ (folder.walk place).map Entry.data? = some data? := by
  rw [listing, mem_listingAt folder h]
  constructor
  · rintro ⟨rest, hne, rfl, hwalk⟩
    exact ⟨hne, hwalk⟩
  · rintro ⟨hne, hwalk⟩
    exact ⟨place, hne, rfl, hwalk⟩

/-! ## The order of a listing -/

mutual
theorem pairwise_entryListing (entry : Entry) (hentry : entry.ordered = true) (base : List Bytes) :
    (entryListing base entry).Pairwise fun a b => Precedes a.1 b.1 := by
  cases entry with
  | file data =>
    rw [entryListing]
    exact List.pairwise_singleton _ _
  | dir inner =>
    rw [entryListing, List.pairwise_cons]
    refine ⟨fun ⟨place, data?⟩ hplace => ?_, pairwise_listingAt inner hentry base⟩
    obtain ⟨rest, hne, rfl, -⟩ := (mem_listingAt inner hentry base place data?).1 hplace
    exact precedes_append base hne
/-- **A listing goes by the order of places.** -/
theorem pairwise_listingAt (folder : Folder) (hfolder : folder.ordered = true) (base : List Bytes) :
    (listingAt base folder).Pairwise fun a b => Precedes a.1 b.1 := by
  cases folder with
  | nil =>
    rw [listingAt]
    exact List.Pairwise.nil
  | cons head others =>
    obtain ⟨name, entry⟩ := head
    obtain ⟨hbefore, hentry, hothers⟩ := ordered_cons.1 hfolder
    rw [listingAt, List.pairwise_append]
    refine ⟨pairwise_entryListing entry hentry _, pairwise_listingAt others hothers base, ?_⟩
    -- what is at or below the first name comes before all that begins with a later name
    rintro ⟨first, data?⟩ hfirst ⟨later, data?'⟩ hlater
    obtain ⟨more, rfl, -⟩ := (mem_entryListing entry hentry _ first data?).1 hfirst
    obtain ⟨rest, hne, rfl, hwalk⟩ := (mem_listingAt others hothers base later data?').1 hlater
    obtain ⟨key, rest, rfl⟩ := List.exists_cons_of_ne_nil hne
    have hkey : key ∈ names others := by
      rw [walk_name] at hwalk
      cases hfound : find? key others with
      | none =>
        rw [hfound] at hwalk
        cases hwalk
      | some found => exact mem_names_of_find? hfound
    rw [List.append_assoc]
    exact precedes_beside (hbefore key hkey) base more rest
end

/-- Of two members of a list the one that has to come first comes first. -/
theorem pair_sublist {α : Type} {R : α → α → Prop} {l : List α} {a b : α} (hl : l.Pairwise R)
    (ha : a ∈ l) (hb : b ∈ l) (hne : a ≠ b) (hnot : ¬ R b a) : [a, b].Sublist l := by
  induction l with
  | nil => cases ha
  | cons first rest ih =>
    obtain ⟨hfirst, hrest⟩ := List.pairwise_cons.1 hl
    rcases List.mem_cons.1 ha with rfl | ha'
    · have hlater : b ∈ rest := (List.mem_cons.1 hb).resolve_left (Ne.symm hne)
      exact (List.singleton_sublist.2 hlater).cons_cons a
    · rcases List.mem_cons.1 hb with rfl | hb'
      · exact absurd (hfirst a ha') hnot
      · exact (ih hrest ha' hb').cons first

/-! ## Paths -/

/-- In a tree with proper names, the names on the way to whatever is there are proper. -/
theorem Named.of_walk {P : Bytes → Prop} (hfolder : folder.Named P) (h : folder.walk place = some entry) :
    ∀ n ∈ place, P n := by
  induction place generalizing folder with
  | nil => exact nofun
  | cons name rest ih =>
    rw [walk_name] at h
    obtain ⟨found, hfound, hwalk⟩ := Option.bind_eq_some_iff.1 h
    have hname : P name := by
      by_contra hnot
      rw [hfolder.find?_eq_none hnot] at hfound
      cases hfound
    have hrest : ∀ n ∈ rest, P n := by
      cases found with
      | dir inner => exact ih (named_dir.1 (named_find? hfolder hfound)) hwalk
      | file data =>
        cases rest with
        | nil => exact nofun
        | cons next rest => cases hwalk
    exact List.forall_mem_cons.2 ⟨hname, hrest⟩

/-- The path of a place is that of a row of names, with a slash after a directory. -/
theorem pathOf_eq (hne : place ≠ []) (isDir : Bool) :
    pathOf place isDir = ofNames place ++ if isDir then Path.root else [] := by
  obtain ⟨first, rest, rfl⟩ := List.exists_cons_of_ne_nil hne
  rw [pathOf, ofNames, Bytes.join_cons, List.flatMap_cons]
  rfl

/-- Names joined one by one to a row of names. -/
theorem foldl_join {above : List Bytes} (habove : ∀ n ∈ above, IsProper n) (h : ∀ n ∈ place, IsProper n) :
    place.foldl (fun path name => Path.join [path, name]) (ofNames above) = ofNames (above ++ place) := by
  induction place generalizing above with
  | nil => rw [List.foldl_nil, List.append_nil]
  | cons name rest ih =>
    obtain ⟨hname, hrest⟩ := List.forall_mem_cons.1 h
    have hlonger : ∀ n ∈ above ++ [name], IsProper n :=
      List.forall_mem_append.2 ⟨habove, List.forall_mem_singleton.2 hname⟩
    rw [List.foldl_cons, Path.join_ofNames habove hname, ih hlonger hrest, List.append_assoc]
    rfl

/-- **A place with proper names is listed under its path.** -/
theorem listedPath_eq (hne : place ≠ []) (h : ∀ n ∈ place, IsProper n) (isDir : Bool) :
    listedPath place isDir = pathOf place isDir := by
  have hroot : Path.root = ofNames [] := rfl
  rw [pathOf_eq hne, listedPath, hroot, foldl_join (List.forall_mem_nil _) h, List.nil_append]

/-- A slash at the end of a path does not change its place. -/
theorem segments_ofNames_slash (h : ∀ n ∈ place, IsProper n) {c : Prop} [Decidable c] :
    segments (ofNames place ++ if c then Path.root else []) = place := by
  have hnames := Path.isName_of_proper h
  split
  · exact Path.segments_pad hnames 1 1
  · exact Path.segments_pad hnames 1 0

/-- **The path of a place tells the place.** -/
theorem segments_pathOf (hne : place ≠ []) (h : ∀ n ∈ place, IsProper n) (isDir : Bool) :
    segments (pathOf place isDir) = place := by
  rw [pathOf_eq hne, segments_ofNames_slash h]

/-! ## The paths of a tree -/

/-- A listing with the kinds of what it holds. -/
def listedKinds (folder : Folder) : List (List Bytes × Kind) :=
  folder.listing.map fun (place, data?) => (place, if data?.isNone then .dir else .file)

theorem mem_listedKinds (h : folder.ordered = true) {kind : Kind} :
    (place, kind) ∈ folder.listedKinds ↔ place ≠ [] ∧ folder.kinds place = some kind := by
  have hkind : ∀ entry : Entry, (if entry.data?.isNone then Kind.dir else Kind.file) = entry.kind := by
    intro entry
    cases entry <;> rfl
  rw [listedKinds, List.mem_map]
  constructor
  · rintro ⟨⟨other, data?⟩, hlisted, heq⟩
    cases heq
    obtain ⟨hne, hwalk⟩ := (mem_listing_iff h).1 hlisted
    obtain ⟨entry, hentry, rfl⟩ := Option.map_eq_some_iff.1 hwalk
    rw [hkind]
    exact ⟨hne, congrArg (Option.map Entry.kind) hentry⟩
  · rintro ⟨hne, hplace⟩
    obtain ⟨entry, hentry, rfl⟩ := Option.map_eq_some_iff.1 hplace
    refine ⟨(place, entry.data?), (mem_listing_iff h).2 ⟨hne, ?_⟩, ?_⟩
    · exact congrArg (Option.map Entry.data?) hentry
    · dsimp only
      rw [hkind]

theorem pairwise_listedKinds (h : folder.ordered = true) :
    folder.listedKinds.Pairwise fun a b => Precedes a.1 b.1 :=
  List.pairwise_map.2 (pairwise_listingAt folder h [])

/-- What precedes comes before. -/
theorem pair_sublist_listedKinds (h : folder.ordered = true) {a b : List Bytes × Kind}
    (ha : a ∈ folder.listedKinds) (hb : b ∈ folder.listedKinds) (hab : Precedes a.1 b.1) :
    [a, b].Sublist folder.listedKinds := by
  refine pair_sublist (pairwise_listedKinds h) ha hb ?_ hab.asymm
  rintro rfl
  exact hab.ne rfl

/-- There is a directory at each place above one at which there is something. -/
theorem kinds_above {above rest : List Bytes} (hne : rest ≠ [])
    (h : folder.kinds (above ++ rest) ≠ none) : folder.kinds above = some .dir := by
  by_contra hfile
  exact h (kinds_append_of_ne_dir hfile hne)

section Paths

variable (h : folder.ordered = true) (hnamed : folder.Named IsProper)
include h hnamed

/-- What is listed is at a place with proper names. -/
theorem proper_listing (hlisted : (place, data?) ∈ folder.listing) : place ≠ [] ∧ ∀ n ∈ place, IsProper n := by
  obtain ⟨hne, hplace⟩ := (mem_listing_iff h).1 hlisted
  obtain ⟨entry, hentry, -⟩ := Option.map_eq_some_iff.1 hplace
  exact ⟨hne, hnamed.of_walk hentry⟩

theorem proper_listedKinds {kind : Kind} (hlisted : (place, kind) ∈ folder.listedKinds) :
    place ≠ [] ∧ ∀ n ∈ place, IsProper n := by
  obtain ⟨⟨place, data?⟩, hmem, heq⟩ := List.mem_map.1 hlisted
  cases heq
  exact proper_listing h hnamed hmem

/-- The listed paths are those of the listed places. -/
theorem paths_eq :
    folder.paths = folder.listedKinds.map fun listed => pathOf listed.1 (listed.2 = .dir) := by
  rw [paths, files, listedKinds, List.map_map, List.map_map]
  apply List.map_congr_left
  rintro ⟨place, data?⟩ hlisted
  obtain ⟨hne, hproper⟩ := proper_listing h hnamed hlisted
  have hpath := listedPath_eq hne hproper
  cases data? with
  | none => exact hpath true
  | some data => exact hpath false

/-- The places of the listed paths. -/
theorem map_segments_paths : folder.paths.map segments = folder.listedKinds.map Prod.fst := by
  rw [paths_eq h hnamed, List.map_map]
  apply List.map_congr_left
  rintro ⟨place, kind⟩ hlisted
  obtain ⟨hne, hproper⟩ := proper_listedKinds h hnamed hlisted
  exact segments_pathOf hne hproper _

/-- **The paths of a tree are in the order of their places.** -/
theorem pairwise_segments_paths : (folder.paths.map segments).Pairwise Precedes := by
  rw [map_segments_paths h hnamed]
  exact List.pairwise_map.2 (pairwise_listedKinds h)

/-- **No path is listed twice.** -/
theorem nodup_paths : folder.paths.Nodup := by
  apply List.Nodup.of_map segments
  exact (pairwise_segments_paths h hnamed).imp Precedes.ne

/-- A listed path is that of a place, with a slash after it if it is that of a directory. -/
theorem exists_listed {path : Bytes} (hpath : path ∈ folder.paths) :
    ∃ place kind, (place, kind) ∈ folder.listedKinds ∧ place ≠ [] ∧ (∀ n ∈ place, IsProper n) ∧
      path = ofNames place ++ if kind = .dir then Path.root else [] := by
  rw [paths_eq h hnamed] at hpath
  obtain ⟨⟨place, kind⟩, hlisted, rfl⟩ := List.mem_map.1 hpath
  obtain ⟨hne, hproper⟩ := proper_listedKinds h hnamed hlisted
  refine ⟨place, kind, hlisted, hne, hproper, ?_⟩
  dsimp only
  rw [pathOf_eq hne]
  simp

/-- **What is listed of a place**: its path with a slash if it is that of a directory, and without one if it
is that of a file. -/
theorem mem_paths_iff {names : List Bytes} (hproper : ∀ n ∈ names, IsProper n) (kind : Kind) :
    ofNames names ++ (if kind = .dir then Path.root else []) ∈ folder.paths ↔
      names ≠ [] ∧ folder.kinds names = some kind := by
  constructor
  · intro hpath
    obtain ⟨place, other, hlisted, -, hplace, heq⟩ := exists_listed h hnamed hpath
    obtain rfl : names = place := by
      have hsegments := congrArg segments heq
      rwa [segments_ofNames_slash hproper, segments_ofNames_slash hplace] at hsegments
    -- the same place with and without a slash are two paths
    have hkind : other = kind := by
      have hlength := congrArg List.length heq
      cases other <;> cases kind <;> simp [Path.root] at hlength ⊢
    exact hkind ▸ (mem_listedKinds h).1 hlisted
  · intro hplace
    rw [paths_eq h hnamed, List.mem_map]
    refine ⟨(names, kind), (mem_listedKinds h).2 hplace, ?_⟩
    simp [pathOf_eq hplace.1]

/-- **What is below a directory is listed after it.** -/
theorem pair_sublist_paths {names : List Bytes} (hne : names ≠ []) (hproper : ∀ n ∈ names, IsProper n)
    {path : Bytes} (hpath : path ∈ folder.paths) (hother : path ≠ ofNames names ++ Path.root)
    (hbelow : Bytes.startsWith (ofNames names ++ Path.root) path = true) :
    [ofNames names ++ Path.root, path].Sublist folder.paths := by
  obtain ⟨place, kind, hlisted, hplace, hnames, rfl⟩ := exists_listed h hnamed hpath
  have hkind := ((mem_listedKinds h).1 hlisted).2
  -- a slash at the end of a longer path does not matter
  have hstart : Bytes.startsWith (ofNames names ++ Path.root) (ofNames place) = true := by
    rw [Bytes.startsWith, List.isPrefixOf_iff_prefix] at hbelow ⊢
    split at hbelow
    · next hdir =>
      rw [if_pos hdir] at hother
      exact (List.prefix_concat_iff.1 hbelow).resolve_left (Ne.symm hother)
    · rwa [List.append_nil] at hbelow
  obtain ⟨⟨rest, rfl⟩, hlonger⟩ := (Path.startsWith_ofNames hne hproper hnames).1 hstart
  have hrest : rest ≠ [] := fun hnil => hlonger (by rw [hnil, List.append_nil])
  have hdir : (names, Kind.dir) ∈ folder.listedKinds :=
    (mem_listedKinds h).2 ⟨hne, kinds_above hrest (hkind ▸ Option.some_ne_none kind)⟩
  have hpair := pair_sublist_listedKinds h hdir hlisted (precedes_append names hrest)
  have hmapped := hpair.map fun listed => pathOf listed.1 (listed.2 = .dir)
  simpa only [← paths_eq h hnamed, List.map_cons, List.map_nil, pathOf_eq hne, pathOf_eq hplace,
    decide_eq_true_eq, if_true] using hmapped

end Paths

end Folder

/-! ## The byte order of paths -/

namespace Bytes

theorem before_iff {a b : Bytes} : before a b = true ↔ a < b := decide_eq_true_iff

theorem before_append_left (common a b : Bytes) :
    before (common ++ a) (common ++ b) = true ↔ before a b = true := by
  rw [before_iff, before_iff]
  induction common with
  | nil => exact Iff.rfl
  | cons first rest ih => rw [List.cons_append, List.cons_append, List.cons_lt_cons_self, ih]

/-- A text that comes before another one does so too when both go on, unless the other one begins with it
and a slash comes to stand where the other one has a smaller byte. -/
theorem before_append_iff {a b x y : Bytes} (hab : before a b = true) (hslash : Path.slash ∉ b)
    (hx : x = [] ∨ x.head? = some Path.slash) :
    before (a ++ x) (b ++ y) = true ↔ x = [] ∨ ∀ c rest, b = a ++ c :: rest → Path.slash < c := by
  have hlex : List.Lex (· < ·) a b := before_iff.1 hab
  clear hab
  rw [before_iff]
  induction hlex with
  | @nil c rest =>
    rcases hx with rfl | hx
    · exact iff_of_true (List.nil_lt_cons _ _) (Or.inl rfl)
    · -- the slash meets the first byte that the other text has more
      obtain ⟨tail, rfl⟩ := List.head?_eq_some_iff.1 hx
      have hne : Path.slash ≠ c := fun heq => hslash (heq ▸ List.mem_cons_self)
      rw [List.nil_append, List.cons_append, List.cons_lt_cons_iff]
      simp [hne]
  | @cons first a b _ ih =>
    have hrest := ih fun hmem => hslash (List.mem_cons_of_mem first hmem)
    rw [List.cons_append, List.cons_append, List.cons_lt_cons_self]
    refine hrest.trans ?_
    simp
  | @rel first a other b hlt =>
    refine iff_of_true (List.cons_lt_cons_iff.2 (Or.inl hlt)) (Or.inr fun c rest heq => ?_)
    rw [List.cons_append, List.cons.injEq] at heq
    rw [heq.1] at hlt
    exact absurd hlt (UInt8.lt_irrefl first)

end Bytes

namespace Folder

variable {folder : Folder} {name other : Bytes} {above more rest : List Bytes} {isDir isDir' : Bool}

theorem pathOf_append (above rest : List Bytes) (isDir : Bool) :
    pathOf (above ++ rest) isDir = above.flatMap (Path.slash :: ·) ++ pathOf rest isDir := by
  rw [pathOf, pathOf, List.flatMap_append, List.append_assoc]

theorem pathOf_cons (name : Bytes) (rest : List Bytes) (isDir : Bool) :
    pathOf (name :: rest) isDir = Path.slash :: (name ++ pathOf rest isDir) := by
  rw [pathOf, pathOf, List.flatMap_cons, List.cons_append, List.cons_append, List.append_assoc]

theorem pathOf_cases (rest : List Bytes) (isDir : Bool) :
    (rest = [] ∧ isDir = false ∧ pathOf rest isDir = []) ∨
      (¬ (rest = [] ∧ isDir = false) ∧ (pathOf rest isDir).head? = some Path.slash) := by
  cases rest with
  | cons first rest =>
    right
    rw [pathOf_cons]
    exact ⟨by simp, rfl⟩
  | nil =>
    cases isDir with
    | true => exact Or.inr ⟨by simp, rfl⟩
    | false => exact Or.inl ⟨rfl, rfl, rfl⟩

/-- The path of a directory comes before the paths of what is below it. -/
theorem before_pathOf_below (hne : rest ≠ []) (hproper : ∀ n ∈ rest, IsProper n) (above : List Bytes)
    (isDir : Bool) : Bytes.before (pathOf above true) (pathOf (above ++ rest) isDir) = true := by
  obtain ⟨name, rest, rfl⟩ := List.exists_cons_of_ne_nil hne
  obtain ⟨b, tail, rfl⟩ := List.exists_cons_of_ne_nil (hproper name List.mem_cons_self).1.1
  have hself := pathOf_append above [] true
  rw [List.append_nil] at hself
  rw [hself, pathOf_append, Bytes.before_append_left, pathOf_cons]
  exact (Bytes.before_append_left [Path.slash] [] _).2 rfl

/-- **The paths of two siblings and of what is below them** are in the order of the two names, unless the
second name goes on after the first one with a byte below the slash and the first one is a directory. -/
theorem before_pathOf_beside (hname : Bytes.before name other = true) (hslash : Path.slash ∉ other) :
    Bytes.before (pathOf (above ++ name :: more) isDir) (pathOf (above ++ other :: rest) isDir') = true ↔
      (more = [] ∧ isDir = false) ∨ ∀ c tail, other = name ++ c :: tail → Path.slash < c := by
  rw [pathOf_append, pathOf_append, Bytes.before_append_left, pathOf_cons, pathOf_cons]
  have hcommon := Bytes.before_append_left [Path.slash] (name ++ pathOf more isDir)
    (other ++ pathOf rest isDir')
  rw [List.singleton_append, List.singleton_append] at hcommon
  rw [hcommon]
  rcases pathOf_cases more isDir with ⟨hmore, hfile, hnil⟩ | ⟨hdir, hhead⟩
  · rw [Bytes.before_append_iff hname hslash (Or.inl hnil)]
    exact iff_of_true (Or.inl hnil) (Or.inl ⟨hmore, hfile⟩)
  · have hne : pathOf more isDir ≠ [] := fun hnil => by rw [hnil] at hhead; cases hhead
    rw [Bytes.before_append_iff hname hslash (Or.inr hhead), or_iff_right hne, or_iff_right hdir]

/-- No directory has a sibling whose name goes on after its own with a byte below the slash. -/
def SlashFirst (folder : Folder) : Prop :=
  ∀ above name c tail, folder.kinds (above ++ [name]) = some .dir →
    folder.kinds (above ++ [name ++ c :: tail]) ≠ none → Path.slash < c

section Sorted

variable (h : folder.ordered = true) (hnamed : folder.Named IsProper)
include h hnamed

/-- In such a tree, paths are in the order of their places. -/
theorem before_of_precedes (hfree : folder.SlashFirst) {first later : List Bytes} {kind kind' : Kind}
    (hfirst : (first, kind) ∈ folder.listedKinds) (hlater : (later, kind') ∈ folder.listedKinds)
    (hprecedes : Precedes first later) :
    Bytes.before (pathOf first (kind = .dir)) (pathOf later (kind' = .dir)) = true := by
  obtain ⟨-, hkind⟩ := (mem_listedKinds h).1 hfirst
  obtain ⟨-, hkind'⟩ := (mem_listedKinds h).1 hlater
  have hthere : folder.kinds later ≠ none := by
    rw [hkind']
    exact Option.some_ne_none kind'
  have hproper := (proper_listedKinds h hnamed hlater).2
  rcases precedes_cases hprecedes with ⟨rest, hne, rfl⟩ | ⟨above, name, more, other, rest, rfl, rfl, hname⟩
  · obtain rfl : kind = .dir := by
      rw [kinds_above hne hthere] at hkind
      exact (Option.some.inj hkind).symm
    exact before_pathOf_below hne (fun n hn => hproper n (List.mem_append_right _ hn)) first _
  · have hslash : Path.slash ∉ other := (hproper other (by simp)).1.2
    rw [before_pathOf_beside hname hslash, decide_eq_false_iff_not]
    by_cases hfile : more = [] ∧ ¬ kind = .dir
    · exact Or.inl hfile
    · right
      rintro c tail rfl
      apply hfree above name c tail
      · -- the first of the two names is that of a directory
        by_cases hmore : more = []
        · subst hmore
          rw [hkind, not_not.1 fun hnot => hfile ⟨rfl, hnot⟩]
        · rw [List.append_cons] at hkind
          exact kinds_above hmore (hkind ▸ Option.some_ne_none kind)
      · by_cases hrest : rest = []
        · rwa [hrest] at hthere
        · rw [List.append_cons] at hthere
          rw [kinds_above hrest hthere]
          exact Option.some_ne_none _

/-- **The paths of a tree are in byte order exactly if** no directory has a sibling whose name goes on after
its own with a byte below the slash. -/
theorem paths_sorted_iff :
    (folder.paths.Pairwise fun a b => Bytes.before a b = true) ↔ folder.SlashFirst := by
  rw [paths_eq h hnamed, List.pairwise_map]
  constructor
  · intro hsorted above name c tail hdir hthere
    obtain ⟨kind, hkind⟩ := Option.ne_none_iff_exists'.1 hthere
    have hfirst : (above ++ [name], Kind.dir) ∈ folder.listedKinds :=
      (mem_listedKinds h).2 ⟨by simp, hdir⟩
    have hlater : (above ++ [name ++ c :: tail], kind) ∈ folder.listedKinds :=
      (mem_listedKinds h).2 ⟨by simp, hkind⟩
    have hname : Bytes.before name (name ++ c :: tail) = true := by
      have hlonger := (Bytes.before_append_left name [] (c :: tail)).2 rfl
      rwa [List.append_nil] at hlonger
    have hslash : Path.slash ∉ name ++ c :: tail :=
      ((proper_listedKinds h hnamed hlater).2 _ (by simp)).1.2
    -- the directory is listed first, so its path has to be the smaller one
    have hpair := hsorted.sublist (pair_sublist_listedKinds h hfirst hlater (precedes_beside hname _ _ _))
    have hbefore := List.pairwise_pair.1 hpair
    rw [before_pathOf_beside hname hslash] at hbefore
    exact (hbefore.resolve_left (by simp)) c tail rfl
  · intro hfree
    refine (pairwise_listedKinds h).imp_of_mem ?_
    intro first later hfirst hlater hprecedes
    exact before_of_precedes h hnamed hfree hfirst hlater hprecedes

end Sorted

end Folder

end BuildScript
