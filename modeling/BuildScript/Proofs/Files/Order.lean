import BuildScript.Proofs.Files.MakeDirs
import Mathlib.Data.List.Basic

/-!
# Trees in the order of their names

A folder lists its entries in the byte order of their names, so every name is there once. This is what
makes a list of entries a folder, and every change to a tree keeps it.

* `Entry.ordered`, `Folder.ordered`: a tree all of whose folders are in order.
* `find?_insert`, `find?_replace`, `find?_erase`, `find?_merge`: **what is found under a name** after a
  change to a folder.
* `ordered_insert`, `ordered_replace`, `ordered_erase`, `ordered_update`, `ordered_makeDirs`,
  `ordered_merge`: **every change keeps the order.**
-/

namespace BuildScript

namespace Bytes

variable {a b c : Bytes}

theorem before_irrefl (a : Bytes) : before a a = false :=
  decide_eq_false (List.lt_irrefl a)

theorem before_trans (hab : before a b = true) (hbc : before b c = true) : before a c = true :=
  decide_eq_true (List.lt_trans (of_decide_eq_true hab) (of_decide_eq_true hbc))

/-- Of two different texts one comes before the other. -/
theorem before_of_ne (hne : a ≠ b) (h : ¬ before a b = true) : before b a = true := by
  by_contra hba
  have hle : b ≤ a := fun hlt => h (decide_eq_true hlt)
  have hge : a ≤ b := fun hlt => hba (decide_eq_true hlt)
  exact hne (List.le_antisymm hge hle)

end Bytes

mutual
/-- Whether the names in a directory, and in all below it, are in order. -/
def Entry.ordered : Entry → Bool
  | .file _ => true
  | .dir entries => Folder.ordered entries
/-- Whether the names in a folder, and in all below it, are in order. -/
def Folder.ordered : Folder → Bool
  | [] => true
  | (name, entry) :: rest =>
    (Folder.names rest).all (Bytes.before name) && (Entry.ordered entry && Folder.ordered rest)
end

namespace Folder

variable {folder source target : Folder} {name key : Bytes} {entry : Entry}

theorem ordered_cons : ordered ((name, entry) :: folder) = true ↔
    (∀ other ∈ names folder, Bytes.before name other = true) ∧ entry.ordered = true ∧
      folder.ordered = true := by
  rw [ordered, Bool.and_eq_true, Bool.and_eq_true, List.all_eq_true]

/-! ## What is found under a name -/

theorem mem_names_of_find? (h : find? name folder = some entry) : name ∈ names folder := by
  induction folder with
  | nil => cases h
  | cons head rest ih =>
    obtain ⟨key, other⟩ := head
    by_cases hkey : key = name
    · exact hkey ▸ List.mem_cons_self
    · simp only [find?, hkey, if_false] at h
      exact List.mem_cons_of_mem key (ih h)

/-- A name that comes before all in a folder is not in it. -/
theorem find?_of_before (h : ∀ other ∈ names folder, Bytes.before name other = true) :
    find? name folder = none := by
  cases hfound : find? name folder with
  | none => rfl
  | some entry =>
    have hself := h name (mem_names_of_find? hfound)
    rw [Bytes.before_irrefl] at hself
    cases hself

theorem find?_insert (key name : Bytes) (entry : Entry) (folder : Folder) :
    find? key (insert name entry folder) = if key = name then some entry else find? key folder := by
  by_cases hself : key = name
  · rw [hself, if_pos rfl]
    exact find?_insert_self name entry folder
  rw [if_neg hself]
  induction folder with
  | nil => simp [insert, find?, Ne.symm hself]
  | cons head rest ih =>
    obtain ⟨other, old⟩ := head
    rw [insert]
    split
    · rename_i hother
      simp [find?, hother, Ne.symm hself]
    · split
      · simp [find?, Ne.symm hself]
      · simp [find?, ih]

theorem find?_replace {old : Entry} (h : find? name folder = some old) (key : Bytes) (entry : Entry) :
    find? key (replace name entry folder) = if key = name then some entry else find? key folder := by
  by_cases hself : key = name
  · rw [hself, if_pos rfl]
    exact find?_replace_self h entry
  rw [if_neg hself]
  clear h
  induction folder with
  | nil => rfl
  | cons head rest ih =>
    obtain ⟨other, old⟩ := head
    rw [replace]
    split
    · rename_i hother
      simp [find?, hother, Ne.symm hself]
    · simp [find?, ih]

theorem find?_erase (h : folder.ordered = true) (key name : Bytes) :
    find? key (erase name folder) = if key = name then none else find? key folder := by
  induction folder with
  | nil => simp [erase, find?]
  | cons head rest ih =>
    obtain ⟨other, old⟩ := head
    obtain ⟨hbefore, -, hrest⟩ := ordered_cons.1 h
    rw [erase]
    split
    · -- the name is there only once, so nothing of that name is left
      rename_i hother
      subst hother
      by_cases hself : key = other
      · rw [if_pos hself, hself]
        exact find?_of_before hbefore
      · simp [find?, hself, Ne.symm hself]
    · rename_i hother
      by_cases hkey : other = key
      · subst hkey
        simp [find?, hother]
      · simp [find?, hkey, ih hrest]

/-- What is found in a tree laid over another: each entry of the first over what is there. -/
theorem find?_merge (h : source.ordered = true) (key : Bytes) (target : Folder) :
    find? key (merge source target) =
      match find? key source with
      | none => find? key target
      | some entry => some (overlay entry (find? key target)) := by
  induction source generalizing target with
  | nil => rfl
  | cons head rest ih =>
    obtain ⟨name, entry⟩ := head
    obtain ⟨hbefore, -, hrest⟩ := ordered_cons.1 h
    rw [merge, ih hrest, find?_insert]
    by_cases hself : key = name
    · subst hself
      simp [find?, find?_of_before hbefore]
    · simp [find?, hself, Ne.symm hself]

/-! ## One folder in order -/

theorem mem_names_insert {other : Bytes} (h : other ∈ names (insert name entry folder)) :
    other = name ∨ other ∈ names folder := by
  induction folder with
  | nil => exact Or.inl (List.mem_singleton.1 h)
  | cons head rest ih =>
    obtain ⟨key, old⟩ := head
    rw [insert] at h
    split at h
    · rcases List.mem_cons.1 h with h | h
      · exact Or.inl h
      · exact Or.inr (List.mem_cons_of_mem key h)
    · split at h
      · exact List.mem_cons.1 h
      · rcases List.mem_cons.1 h with h | h
        · exact Or.inr (h ▸ List.mem_cons_self)
        · exact (ih h).imp_right (List.mem_cons_of_mem key)

theorem names_replace (name : Bytes) (entry : Entry) (folder : Folder) :
    names (replace name entry folder) = names folder := by
  induction folder with
  | nil => rfl
  | cons head rest ih =>
    obtain ⟨key, old⟩ := head
    rw [replace]
    split
    · rfl
    · exact congrArg (key :: ·) ih

theorem mem_names_erase {other : Bytes} (h : other ∈ names (erase name folder)) :
    other ∈ names folder := by
  induction folder with
  | nil => exact h
  | cons head rest ih =>
    obtain ⟨key, old⟩ := head
    rw [erase] at h
    split at h
    · exact List.mem_cons_of_mem key h
    · rcases List.mem_cons.1 h with h | h
      · exact h ▸ List.mem_cons_self
      · exact List.mem_cons_of_mem key (ih h)

theorem ordered_insert (hfolder : folder.ordered = true) (hentry : entry.ordered = true)
    (name : Bytes) : (insert name entry folder).ordered = true := by
  induction folder with
  | nil => exact ordered_cons.2 ⟨nofun, hentry, rfl⟩
  | cons head rest ih =>
    obtain ⟨key, old⟩ := head
    obtain ⟨hbefore, hold, hrest⟩ := ordered_cons.1 hfolder
    rw [insert]
    split
    · rename_i hkey
      exact ordered_cons.2 ⟨hkey ▸ hbefore, hentry, hrest⟩
    · rename_i hkey
      split
      · rename_i hfirst
        refine ordered_cons.2 ⟨fun other hother => ?_, hentry, hfolder⟩
        rcases List.mem_cons.1 hother with rfl | hother
        · exact hfirst
        · exact Bytes.before_trans hfirst (hbefore other hother)
      · rename_i hlast
        refine ordered_cons.2 ⟨fun other hother => ?_, hold, ih hrest⟩
        rcases mem_names_insert hother with rfl | hother
        · exact Bytes.before_of_ne (Ne.symm hkey) hlast
        · exact hbefore other hother

theorem ordered_replace (hfolder : folder.ordered = true) (hentry : entry.ordered = true)
    (name : Bytes) : (replace name entry folder).ordered = true := by
  induction folder with
  | nil => rfl
  | cons head rest ih =>
    obtain ⟨key, old⟩ := head
    obtain ⟨hbefore, hold, hrest⟩ := ordered_cons.1 hfolder
    rw [replace]
    split
    · exact ordered_cons.2 ⟨hbefore, hentry, hrest⟩
    · refine ordered_cons.2 ⟨?_, hold, ih hrest⟩
      rwa [names_replace]

theorem ordered_erase (hfolder : folder.ordered = true) (name : Bytes) :
    (erase name folder).ordered = true := by
  induction folder with
  | nil => rfl
  | cons head rest ih =>
    obtain ⟨key, old⟩ := head
    obtain ⟨hbefore, hold, hrest⟩ := ordered_cons.1 hfolder
    rw [erase]
    split
    · exact hrest
    · exact ordered_cons.2 ⟨fun other hother => hbefore other (mem_names_erase hother), hold, ih hrest⟩

theorem ordered_find? (hfolder : folder.ordered = true) (h : find? name folder = some entry) :
    entry.ordered = true := by
  induction folder with
  | nil => cases h
  | cons head rest ih =>
    obtain ⟨key, old⟩ := head
    obtain ⟨-, hold, hrest⟩ := ordered_cons.1 hfolder
    by_cases hkey : key = name
    · simp only [find?, hkey, if_true, Option.some.injEq] at h
      exact h ▸ hold
    · simp only [find?, hkey, if_false] at h
      exact ih hrest h

/-! ## A tree in order -/

theorem ordered_walk {place : List Bytes} (hfolder : folder.ordered = true)
    (h : walk folder place = some entry) : entry.ordered = true := by
  induction place generalizing folder with
  | nil =>
    cases h
    exact hfolder
  | cons name rest ih =>
    cases rest with
    | nil => exact ordered_find? hfolder h
    | cons next rest =>
      rw [walk] at h
      split at h
      · next inner hfound => exact ih (ordered_find? hfolder hfound) h
      · cases h

theorem ordered_update {change : Folder → Folder}
    (hchange : ∀ inner : Folder, inner.ordered = true → (change inner).ordered = true)
    (place : List Bytes) (hfolder : folder.ordered = true) :
    (update change place folder).ordered = true := by
  induction place generalizing folder with
  | nil => exact hchange folder hfolder
  | cons name rest ih =>
    rw [update]
    split
    · next inner hfound =>
      have hinner : (Entry.dir (update change rest inner)).ordered = true :=
        ih (ordered_find? hfolder hfound)
      exact ordered_replace hfolder hinner name
    · exact hfolder

theorem ordered_makeDirs (place : List Bytes) (hfolder : folder.ordered = true) :
    (makeDirs place folder).1.ordered = true := by
  induction place generalizing folder with
  | nil => exact hfolder
  | cons name rest ih =>
    cases hfound : find? name folder with
    | none =>
      have hmade : (Entry.dir (makeDirs rest []).1).ordered = true := @ih [] rfl
      simp only [makeDirs, hfound]
      exact ordered_insert hfolder hmade name
    | some entry =>
      cases entry with
      | file data => simpa only [makeDirs, hfound] using hfolder
      | dir inner =>
        have hmade : (Entry.dir (makeDirs rest inner).1).ordered = true :=
          ih (ordered_find? hfolder hfound)
        simp only [makeDirs, hfound]
        exact ordered_replace hfolder hmade name

mutual
theorem ordered_overlay (entry : Entry) (old? : Option Entry) (hentry : entry.ordered = true)
    (hold : ∀ old, old? = some old → old.ordered = true) : (overlay entry old?).ordered = true := by
  cases entry with
  | file data => exact hentry
  | dir inner =>
    match old? with
    | none => exact hentry
    | some (.file data) => exact hentry
    | some (.dir outer) => exact ordered_merge inner outer hentry (hold _ rfl)
theorem ordered_merge (source target : Folder) (hsource : source.ordered = true)
    (htarget : target.ordered = true) : (merge source target).ordered = true := by
  match source with
  | [] => exact htarget
  | (name, entry) :: rest =>
    obtain ⟨-, hentry, hrest⟩ := ordered_cons.1 hsource
    have hover := ordered_overlay entry (find? name target) hentry fun old => ordered_find? htarget
    exact ordered_merge rest _ hrest (ordered_insert htarget hover name)
end

end Folder

end BuildScript
