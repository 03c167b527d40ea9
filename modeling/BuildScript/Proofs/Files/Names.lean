import BuildScript.Files.Folder
import Mathlib.Data.List.Basic

/-!
# The names in a tree

Names come into a tree with the places at which something is put, and nothing else makes a name. So a
property of names that all the names in a tree have, and all names on the way to a place, is kept by
every change at that place.

* `Folder.allNames`, `Entry.allNames`: the names at every depth.
* `Folder.Named`, `Entry.Named`: a tree all of whose names have a property.
* `named_insert`, `named_replace`, `named_erase`, `named_update`, `named_makeDirs`, `named_merge`: **every
  change keeps the property**, if the names that it brings have it.
-/

namespace BuildScript

mutual
/-- The names of all that is below an entry. -/
def Entry.allNames : Entry → List Bytes
  | .file _ => []
  | .dir entries => Folder.allNames entries
/-- The names of all that is in a folder, at every depth. -/
def Folder.allNames : Folder → List Bytes
  | [] => []
  | (name, entry) :: rest => name :: (Entry.allNames entry ++ Folder.allNames rest)
end

/-- All names below an entry have a property. -/
def Entry.Named (P : Bytes → Prop) (entry : Entry) : Prop := ∀ name ∈ entry.allNames, P name

/-- All names in a folder, at every depth, have a property. -/
def Folder.Named (P : Bytes → Prop) (folder : Folder) : Prop := ∀ name ∈ folder.allNames, P name

namespace Folder

variable {P : Bytes → Prop} {folder : Folder} {entry : Entry} {name : Bytes} {place : List Bytes}

theorem named_nil : Named P [] := by
  intro name hname
  rw [allNames] at hname
  cases hname

theorem named_file (data : Bytes) : (Entry.file data).Named P := by
  intro name hname
  rw [Entry.allNames] at hname
  cases hname

theorem named_dir : (Entry.dir folder).Named P ↔ folder.Named P := by
  rw [Entry.Named, Entry.allNames, Named]

theorem named_cons :
    Named P ((name, entry) :: folder) ↔ P name ∧ entry.Named P ∧ folder.Named P := by
  rw [Named, allNames, List.forall_mem_cons, List.forall_mem_append]
  rfl

/-! ## One folder -/

theorem named_insert (hfolder : folder.Named P) (hname : P name) (hentry : entry.Named P) :
    (insert name entry folder).Named P := by
  induction folder with
  | nil => exact named_cons.2 ⟨hname, hentry, hfolder⟩
  | cons head rest ih =>
    obtain ⟨key, old⟩ := head
    obtain ⟨hkey, hold, hrest⟩ := named_cons.1 hfolder
    rw [insert]
    -- the name is that of the first entry, comes before it, or belongs further down
    split
    · exact named_cons.2 ⟨hname, hentry, hrest⟩
    · split
      · exact named_cons.2 ⟨hname, hentry, hfolder⟩
      · exact named_cons.2 ⟨hkey, hold, ih hrest⟩

theorem named_replace (hfolder : folder.Named P) (hentry : entry.Named P) (name : Bytes) :
    (replace name entry folder).Named P := by
  induction folder with
  | nil => exact hfolder
  | cons head rest ih =>
    obtain ⟨key, old⟩ := head
    obtain ⟨hkey, hold, hrest⟩ := named_cons.1 hfolder
    rw [replace]
    split
    · exact named_cons.2 ⟨hkey, hentry, hrest⟩
    · exact named_cons.2 ⟨hkey, hold, ih hrest⟩

theorem named_erase (hfolder : folder.Named P) (name : Bytes) : (erase name folder).Named P := by
  induction folder with
  | nil => exact hfolder
  | cons head rest ih =>
    obtain ⟨key, old⟩ := head
    obtain ⟨hkey, hold, hrest⟩ := named_cons.1 hfolder
    rw [erase]
    split
    · exact hrest
    · exact named_cons.2 ⟨hkey, hold, ih hrest⟩

theorem named_find? (hfolder : folder.Named P) (h : find? name folder = some entry) :
    entry.Named P := by
  induction folder with
  | nil => cases h
  | cons head rest ih =>
    obtain ⟨key, old⟩ := head
    obtain ⟨-, hold, hrest⟩ := named_cons.1 hfolder
    rw [find?] at h
    split at h
    · cases h
      exact hold
    · exact ih hrest h

/-- A name without the property is not there. -/
theorem Named.find?_eq_none (hfolder : folder.Named P) (hname : ¬ P name) : find? name folder = none := by
  induction folder with
  | nil => rfl
  | cons head rest ih =>
    obtain ⟨key, old⟩ := head
    obtain ⟨hkey, -, hrest⟩ := named_cons.1 hfolder
    have hne : key ≠ name := fun heq => hname (heq ▸ hkey)
    rw [find?, if_neg hne]
    exact ih hrest

/-! ## A tree -/

theorem named_walk (hfolder : folder.Named P) (h : folder.walk place = some entry) :
    entry.Named P := by
  induction place generalizing folder with
  | nil =>
    rw [walk] at h
    cases h
    exact named_dir.2 hfolder
  | cons first rest ih =>
    cases rest with
    | nil => exact named_find? hfolder h
    | cons next rest =>
      rw [walk] at h
      split at h
      · next inner hfound => exact ih (named_dir.1 (named_find? hfolder hfound)) h
      · cases h

theorem named_update {change : Folder → Folder}
    (hchange : ∀ inner : Folder, inner.Named P → (change inner).Named P)
    (place : List Bytes) (hfolder : folder.Named P) : (update change place folder).Named P := by
  induction place generalizing folder with
  | nil => exact hchange folder hfolder
  | cons first rest ih =>
    rw [update]
    split
    · next inner hfound =>
      have hinner : Named P inner := named_dir.1 (named_find? hfolder hfound)
      exact named_replace hfolder (named_dir.2 (ih hinner)) first
    · -- the way leaves the tree, and nothing is changed
      exact hfolder

/-- **Folders made along a way** bring the names of the way. -/
theorem named_makeDirs (hplace : ∀ n ∈ place, P n) (hfolder : folder.Named P) :
    (makeDirs place folder).1.Named P := by
  induction place generalizing folder with
  | nil => exact hfolder
  | cons first rest ih =>
    obtain ⟨hfirst, hrest⟩ := List.forall_mem_cons.1 hplace
    rw [makeDirs]
    split
    · exact named_insert hfolder hfirst (named_dir.2 (ih hrest named_nil))
    · next inner hfound =>
      have hinner : Named P inner := named_dir.1 (named_find? hfolder hfound)
      exact named_replace hfolder (named_dir.2 (ih hrest hinner)) first
    · -- a file is in the way
      exact hfolder

mutual
theorem named_overlay (entry : Entry) (old? : Option Entry) (hentry : entry.Named P)
    (hold : ∀ old, old? = some old → old.Named P) : (overlay entry old?).Named P := by
  match entry, old? with
  | .file data, _ => exact named_file data
  | .dir inner, none => exact hentry
  | .dir inner, some (.file _) => exact hentry
  | .dir inner, some (.dir outer) =>
    exact named_dir.2 (named_merge inner outer (named_dir.1 hentry) (named_dir.1 (hold _ rfl)))
/-- **A tree laid over another** has no names but those of the two. -/
theorem named_merge (source target : Folder) (hsource : source.Named P) (htarget : target.Named P) :
    (merge source target).Named P := by
  match source with
  | [] => exact htarget
  | (name, entry) :: rest =>
    obtain ⟨hname, hentry, hrest⟩ := named_cons.1 hsource
    have hover := named_overlay entry (find? name target) hentry fun old => named_find? htarget
    exact named_merge rest _ hrest (named_insert htarget hname hover)
end

end Folder

end BuildScript
