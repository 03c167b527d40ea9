import BuildScript.Files.Folder

/-!
# Folders made along a way

Making the folders along a way changes the tree while the walk is still going on, and only later may
a file turn up in the way, or a folder where the file is to be written.

* `makeDirs_of_stop`: **a walk that ends at a file has made nothing.**
* `makeDirs_of_walk`: **a walk that leads to a folder with an entry in it has made nothing.**

Both have one reason: below a folder that had to be made there is nothing yet, neither a file that
could end the walk (`makeDirs_nil_stop`) nor an entry to be found (`walk_makeDirs_nil`).
-/

namespace BuildScript.Folder

variable {folder : Folder} {name : Bytes} {entry old : Entry}

/-! ## One folder -/

theorem find?_insert_self (name : Bytes) (entry : Entry) (folder : Folder) :
    find? name (insert name entry folder) = some entry := by
  induction folder with
  | nil => simp [insert, find?]
  | cons head rest ih =>
    obtain ⟨key, other⟩ := head
    by_cases hkey : key = name
    · simp [insert, find?, hkey]
    · by_cases hbefore : Bytes.before name key
      · simp [insert, find?, hkey, hbefore]
      · simp [insert, find?, hkey, hbefore, ih]

theorem find?_replace_self (h : find? name folder = some old) (entry : Entry) :
    find? name (replace name entry folder) = some entry := by
  induction folder with
  | nil => cases h
  | cons head rest ih =>
    obtain ⟨key, other⟩ := head
    by_cases hkey : key = name
    · simp [replace, find?, hkey]
    · simp only [find?, hkey, if_false] at h
      simp [replace, find?, hkey, ih h]

/-- An entry put in its own place. -/
theorem replace_find? (h : find? name folder = some entry) : replace name entry folder = folder := by
  induction folder with
  | nil => rfl
  | cons head rest ih =>
    obtain ⟨key, other⟩ := head
    by_cases hkey : key = name
    · simp only [find?, hkey, if_true, Option.some.injEq] at h
      simp [replace, hkey, h]
    · simp only [find?, hkey, if_false] at h
      simp [replace, hkey, ih h]

/-- A way that begins with the name of a folder goes on in that folder. -/
theorem walk_cons {inner : Folder} (h : find? name folder = some (.dir inner)) (rest : List Bytes) :
    walk folder (name :: rest) = walk inner rest := by
  cases rest with
  | nil => exact h
  | cons next rest => simp only [walk, h]

/-! ## The walk -/

/-- No file is in the way of a walk through an empty folder. -/
theorem makeDirs_nil_stop (place : List Bytes) : (makeDirs place []).2 = none := by
  induction place with
  | nil => rfl
  | cons name rest ih => simp [makeDirs, find?, ih]

/-- Nothing is in the last folder of a walk through an empty folder. -/
theorem walk_makeDirs_nil (place : List Bytes) (name : Bytes) :
    walk (makeDirs place []).1 (place ++ [name]) = none := by
  induction place with
  | nil => rfl
  | cons first rest ih =>
    have hfound : find? first (makeDirs (first :: rest) []).1
        = some (.dir (makeDirs rest []).1) := find?_insert_self first _ []
    rw [List.cons_append, walk_cons hfound, ih]

/-- **A walk that ends at a file leaves the tree as it was.** -/
theorem makeDirs_of_stop {place stop : List Bytes} (h : (makeDirs place folder).2 = some stop) :
    (makeDirs place folder).1 = folder := by
  induction place generalizing folder stop with
  | nil => rfl
  | cons name rest ih =>
    cases hfound : find? name folder with
    | none =>
      -- from here on the walk makes its own way, and nothing can end it
      simp only [makeDirs, hfound, makeDirs_nil_stop, Option.map_none] at h
      cases h
    | some entry =>
      cases entry with
      | file data => simp only [makeDirs, hfound]
      | dir inner =>
        simp only [makeDirs, hfound, Option.map_eq_some_iff] at h ⊢
        obtain ⟨below, hbelow, -⟩ := h
        rw [ih hbelow]
        exact replace_find? hfound

/-- **A walk to a folder that has an entry leaves the tree as it was.** -/
theorem makeDirs_of_walk {place : List Bytes}
    (h : walk (makeDirs place folder).1 (place ++ [name]) = some entry) :
    (makeDirs place folder).1 = folder := by
  induction place generalizing folder with
  | nil => rfl
  | cons first rest ih =>
    rw [List.cons_append] at h
    cases hfound : find? first folder with
    | none =>
      -- the folders are new, so the last one is empty
      simp only [makeDirs, hfound] at h
      rw [walk_cons (find?_insert_self first _ folder), walk_makeDirs_nil] at h
      cases h
    | some old =>
      cases old with
      | file data => simp only [makeDirs, hfound]
      | dir inner =>
        simp only [makeDirs, hfound] at h ⊢
        rw [walk_cons (find?_replace_self hfound _)] at h
        rw [ih h]
        exact replace_find? hfound

end BuildScript.Folder
