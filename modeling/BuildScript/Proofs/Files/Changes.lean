import BuildScript.Proofs.Files.Contents

/-!
# What changes leave of a tree

A tree in order is known from what is at each of its places. So a change is told in full by the places at
which something else is afterwards, and at all others the same entries are found, with all that they hold.

* `Entry.eq_of_contents`, `Folder.eq_of_contents`: **trees in order with the same contents are the same.**
* `walk_eq_of_contents`: so are entries at places at and below which two trees do not differ.
* `Contents.made`, `Contents.written`, `Contents.removed`: directories made along a way, a file written, a
  place cleared. Each of them done twice is done once.
* `Made`, `Written`, `Removed`: the same changes, told by what is found at each place.
-/

namespace BuildScript

/-! ## Trees with the same contents -/

namespace Folder

variable {folder rest : Folder} {entry : Entry} {name key : Bytes}

theorem contents_nil (folder : Folder) : folder.contents [] = some .dir :=
  contents_eq_dir_iff.2 (kinds_nil folder)

/-- Every entry is at its own place. -/
theorem contents_top (entry : Entry) : entry.contents [] ≠ none := by
  cases entry <;> exact Option.some_ne_none _

theorem contents_cons (name : Bytes) (entry : Entry) (rest : Folder) (key : Bytes) (place : List Bytes) :
    contents ((name, entry) :: rest) (key :: place) =
      if name = key then entry.contents place else rest.contents (key :: place) := by
  have hname : ∀ folder : Folder, folder.contents (key :: place) =
      (find? key folder).bind (·.contents place) := fun folder => contents_entry_name (.dir folder) key place
  rw [hname, hname, find?]
  split <;> rfl

/-- The first name of a folder in order comes before all others at which there is something. -/
theorem before_of_contents (h : ordered ((name, entry) :: rest) = true)
    (hkey : contents ((name, entry) :: rest) [key] ≠ none) (hne : key ≠ name) :
    Bytes.before name key = true := by
  rw [contents_cons, if_neg (Ne.symm hne)] at hkey
  obtain ⟨hbefore, -⟩ := ordered_cons.1 h
  cases hfound : find? key rest with
  | none => exact absurd (congrArg (Option.map Entry.node) hfound) hkey
  | some found => exact hbefore key (mem_names_of_find? hfound)

/-- Folders in order with the same contents begin with the same name. -/
theorem head_eq_of_contents {other : Entry} {more : Folder}
    (ha : ordered ((name, entry) :: rest) = true) (hb : ordered ((key, other) :: more) = true)
    (h : contents ((name, entry) :: rest) = contents ((key, other) :: more)) : name = key := by
  have hhead : ∀ (name : Bytes) (entry : Entry) (rest : Folder),
      contents ((name, entry) :: rest) [name] ≠ none := by
    intro name entry rest
    rw [contents_cons, if_pos rfl]
    exact contents_top entry
  by_contra hne
  -- each of the two names would come before the other
  have hfirst := before_of_contents ha (h ▸ hhead key other more) (Ne.symm hne)
  have hsecond := before_of_contents hb (h ▸ hhead name entry rest) hne
  have hself := Bytes.before_trans hfirst hsecond
  rw [Bytes.before_irrefl] at hself
  cases hself

/-- Nothing of the first name is in the rest of a folder in order. -/
theorem contents_rest (h : ordered ((name, entry) :: rest) = true) (place : List Bytes) :
    rest.contents (name :: place) = none := by
  have hnone := find?_of_before (ordered_cons.1 h).1
  exact (contents_entry_name (.dir rest) name place).trans (congrArg (Option.bind · _) hnone)

end Folder

mutual
/-- **Entries in order with the same contents are the same.** -/
theorem Entry.eq_of_contents (a b : Entry) (ha : a.ordered = true) (hb : b.ordered = true)
    (h : a.contents = b.contents) : a = b := by
  have htop := congrFun h []
  cases a with
  | file data =>
    cases b with
    | file other =>
      cases htop
      rfl
    | dir inner => cases htop.trans (Folder.contents_nil inner)
  | dir outer =>
    cases b with
    | file other => cases (Folder.contents_nil outer).symm.trans htop
    | dir inner => exact congrArg Entry.dir (Folder.eq_of_contents outer inner ha hb h)
/-- **Trees in order with the same contents are the same.** -/
theorem Folder.eq_of_contents (a b : Folder) (ha : a.ordered = true) (hb : b.ordered = true)
    (h : a.contents = b.contents) : a = b := by
  cases a with
  | nil =>
    cases b with
    | nil => rfl
    | cons head more =>
      obtain ⟨key, other⟩ := head
      have hkey := congrFun h [key]
      rw [Folder.contents_cons, if_pos rfl] at hkey
      exact absurd hkey.symm (Folder.contents_top other)
  | cons head rest =>
    obtain ⟨name, entry⟩ := head
    cases b with
    | nil =>
      have hname := congrFun h [name]
      rw [Folder.contents_cons, if_pos rfl] at hname
      exact absurd hname (Folder.contents_top entry)
    | cons head more =>
      obtain ⟨key, other⟩ := head
      obtain rfl := Folder.head_eq_of_contents ha hb h
      obtain ⟨-, hentry, hrest⟩ := Folder.ordered_cons.1 ha
      obtain ⟨-, hother, hmore⟩ := Folder.ordered_cons.1 hb
      have hsame : entry.contents = other.contents := by
        funext place
        have hplace := congrFun h (name :: place)
        rwa [Folder.contents_cons, Folder.contents_cons, if_pos rfl, if_pos rfl] at hplace
      have hlater : Folder.contents rest = Folder.contents more := by
        funext place
        cases place with
        | nil => rw [Folder.contents_nil, Folder.contents_nil]
        | cons first place =>
          by_cases hfirst : name = first
          · subst hfirst
            rw [Folder.contents_rest ha, Folder.contents_rest hb]
          · have hplace := congrFun h (first :: place)
            rwa [Folder.contents_cons, Folder.contents_cons, if_neg hfirst, if_neg hfirst] at hplace
      rw [Entry.eq_of_contents entry other hentry hother hsame,
        Folder.eq_of_contents rest more hrest hmore hlater]
end

namespace Folder

variable {before after : Folder} {place origin : List Bytes} {data : Bytes}

/-- Where two trees in order do not differ, each at a place of its own and below it, they have the same
entry there. -/
theorem walk_eq_of_contents (hafter : after.ordered = true) (hbefore : before.ordered = true)
    (h : ∀ rest, after.contents (place ++ rest) = before.contents (origin ++ rest)) :
    after.walk place = before.walk origin := by
  simp only [contents_append] at h
  cases hnew : after.walk place with
  | none =>
    cases hold : before.walk origin with
    | none => rfl
    | some old =>
      have hnone := h []
      rw [hnew, hold] at hnone
      exact absurd hnone.symm (contents_top old)
  | some new =>
    cases hold : before.walk origin with
    | none =>
      have hnone := h []
      rw [hnew, hold] at hnone
      exact absurd hnone (contents_top new)
    | some old =>
      have hsame : new.contents = old.contents := by
        funext rest
        have hrest := h rest
        rwa [hnew, hold] at hrest
      rw [Entry.eq_of_contents new old (ordered_walk hafter hnew) (ordered_walk hbefore hold) hsame]

theorem contents_eq_file_iff :
    before.contents place = some (.file data) ↔ before.walk place = some (.file data) := by
  have hcontents : before.contents place = (before.walk place).map Entry.node := rfl
  rw [hcontents]
  cases before.walk place with
  | none => simp
  | some entry => cases entry <;> simp [Entry.node]

end Folder

/-! ## Changes -/

namespace Contents

/-- The directories along a way are there. -/
def made (contents : Contents) (place : List Bytes) : Contents :=
  fun other => if other <+: place then some .dir else contents other

/-- A file is at a place, and the directories above it are there. -/
def written (contents : Contents) (place : List Bytes) (data : Bytes) : Contents :=
  fun other => if other = place then some (.file data) else contents.made place other

/-- Nothing is at a place and below it. The top of a tree stays. -/
def removed (contents : Contents) (place : List Bytes) : Contents :=
  fun other => if place <+: other ∧ other ≠ [] then none else contents other

variable (contents : Contents) (place : List Bytes)

theorem made_made : (contents.made place).made place = contents.made place := by
  funext other
  unfold made
  split <;> rfl

theorem written_written (data : Bytes) :
    (contents.written place data).written place data = contents.written place data := by
  funext other
  by_cases hplace : other = place
  · simp only [written, if_pos hplace]
  · by_cases hpre : other <+: place
    · simp only [written, made, if_neg hplace, if_pos hpre]
    · simp only [written, made, if_neg hplace, if_neg hpre]

theorem removed_removed : (contents.removed place).removed place = contents.removed place := by
  funext other
  unfold removed
  split <;> rfl

end Contents

namespace Folder

variable {before after : Folder} {place : List Bytes} {data : Bytes}

/-- What is left when the directories along a way were made. -/
structure Made (before after : Folder) (place : List Bytes) : Prop where
  way : ∀ part, part <+: place → after.kinds part = some .dir
  elsewhere : ∀ other, ¬ other <+: place → after.walk other = before.walk other

/-- What is left when a file was written, and the directories above it were made. -/
structure Written (before after : Folder) (place : List Bytes) (data : Bytes) : Prop where
  way : ∀ part, part <+: place → part ≠ place → after.kinds part = some .dir
  file : after.walk place = some (.file data)
  elsewhere : ∀ other, ¬ other <+: place → after.walk other = before.walk other

/-- What is left when a place was cleared. The directories above it hold one name less, and all other
entries are the same. -/
structure Removed (before after : Folder) (place : List Bytes) : Prop where
  gone : ∀ other, place <+: other → other ≠ [] → after.walk other = none
  kept : ∀ other, ¬ place <+: other → after.contents other = before.contents other
  beside : ∀ other, ¬ place <+: other → ¬ other <+: place → after.walk other = before.walk other

section Told

variable (hbefore : before.ordered = true) (hafter : after.ordered = true)
include hbefore hafter

theorem made_of_contents (h : after.contents = before.contents.made place) :
    Made before after place := by
  constructor
  · intro part hpart
    rw [← contents_eq_dir_iff, h]
    exact if_pos hpart
  · intro other hother
    refine walk_eq_of_contents hafter hbefore fun rest => ?_
    rw [h]
    exact if_neg fun hpre => hother ((List.prefix_append other rest).trans hpre)

theorem written_of_contents (h : after.contents = before.contents.written place data) :
    Written before after place data := by
  constructor
  · intro part hpart hne
    rw [← contents_eq_dir_iff, h, Contents.written, if_neg hne]
    exact if_pos hpart
  · rw [← contents_eq_file_iff, h]
    exact if_pos rfl
  · intro other hother
    refine walk_eq_of_contents hafter hbefore fun rest => ?_
    have hlong : ¬ other ++ rest <+: place :=
      fun hpre => hother ((List.prefix_append other rest).trans hpre)
    have hne : other ++ rest ≠ place := fun heq => hlong (heq ▸ List.prefix_rfl)
    rw [h, Contents.written, if_neg hne]
    exact if_neg hlong

theorem removed_of_contents (h : after.contents = before.contents.removed place) :
    Removed before after place := by
  constructor
  · intro other hbelow hne
    have hnone : (after.walk other).map Entry.node = none :=
      (congrFun h other).trans (if_pos ⟨hbelow, hne⟩)
    rwa [Option.map_eq_none_iff] at hnone
  · intro other hother
    rw [h]
    exact if_neg fun hboth => hother hboth.1
  · intro other hother habove
    refine walk_eq_of_contents hafter hbefore fun rest => ?_
    rw [h]
    refine if_neg fun hboth => ?_
    -- two beginnings of one way: one of them is a beginning of the other
    rcases List.prefix_or_prefix_of_prefix hboth.1 (List.prefix_append other rest) with hpre | hpre
    · exact hother hpre
    · exact habove hpre

end Told

end Folder

end BuildScript
