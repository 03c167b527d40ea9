import BuildScript.Proofs.Files.Order

/-!
# What is at each place of a tree

From outside, a tree shows at each place nothing, a file or a directory. Every change to a tree is a
change to what it shows, and can be told without the tree.

* `Kinds`: what is at each place. `Folder.kinds`, `Entry.kinds`: what a tree shows.
* `Kinds.made`, `Kinds.written`, `Kinds.removed`, `Kinds.grafted`: directories made along a way, a file
  written, a place cleared, something put at a place.
* `Kinds.overlaid`, `Kinds.copied`, `Kinds.moved`: one tree laid over another, a copy, a move.
* `shown_update`, `shown_changeAt`: a change in the folder at a place, whatever is asked of entries.
* `shown_makeDirs`, `shown_written`, `shown_eraseAt`, `kinds_insertAt`, `kinds_overlay`: **a changed tree
  shows what was shown before, changed.** `makeDirs_stop_iff`: when directories can be made.
-/

namespace BuildScript

/-- What can be at a place. -/
inductive Kind where
  | file
  | dir
  deriving Repr, DecidableEq

/-- What is at each place. -/
abbrev Kinds := List Bytes → Option Kind

namespace Kinds

/-- What is at the places below one place. -/
def below (kinds : Kinds) (place : List Bytes) : Kinds := fun rest => kinds (place ++ rest)

/-- The directories along a way are there. -/
def made (kinds : Kinds) (place : List Bytes) : Kinds :=
  fun other => if other <+: place then some .dir else kinds other

/-- A file is at a place, and the directories above it are there. -/
def written (kinds : Kinds) (place : List Bytes) : Kinds :=
  fun other => if other = place then some .file else kinds.made place other

/-- Nothing is at a place and below it. The top of a tree stays. -/
def removed (kinds : Kinds) (place : List Bytes) : Kinds :=
  fun other => if place <+: other ∧ other ≠ [] then none else kinds other

/-- Something else is at a place and below it, if there is a directory to hold it. -/
def grafted (kinds : Kinds) (place : List Bytes) (inner : Kinds) : Kinds :=
  fun other =>
    if kinds place.dropLast = some .dir ∧ place <+: other then inner (other.drop place.length)
    else kinds other

/-- What is at each place when one tree is laid over another. A directory lets through what is below
it, a file does not. -/
def overlaid (source target : Kinds) : Kinds
  | [] => (source []).or (target [])
  | name :: rest =>
    match source [] with
    | none => target (name :: rest)
    | some .file => none
    | some .dir => overlaid (source.below [name]) (target.below [name]) rest

/-- What is at each place after a copy of what is at `source`, laid over what is at `place`. -/
def copied (kinds : Kinds) (source place : List Bytes) : Kinds :=
  kinds.grafted place ((kinds.below source).overlaid (kinds.below place))

/-- What is at each place after what is at `source` was taken away and put at `place`. -/
def moved (kinds : Kinds) (source place : List Bytes) : Kinds :=
  (kinds.removed source).grafted place (kinds.below source)

/-! ## Places left as they are -/

variable {kinds : Kinds} {place other : List Bytes}

theorem made_of_not_above (h : ¬ other <+: place) : kinds.made place other = kinds other :=
  if_neg h

theorem written_of_not_above (h : ¬ other <+: place) : kinds.written place other = kinds other := by
  have hne : other ≠ place := fun heq => h (heq ▸ List.prefix_rfl)
  rw [written, if_neg hne, made_of_not_above h]

theorem removed_of_not_below (h : ¬ place <+: other) : kinds.removed place other = kinds other :=
  if_neg fun hboth => h hboth.1

theorem grafted_of_not_below {inner : Kinds} (h : ¬ place <+: other) :
    kinds.grafted place inner other = kinds other :=
  if_neg fun hboth => h hboth.2

theorem overlaid_of_none {source : Kinds} (h : source [] = none) (target : Kinds) (place : List Bytes) :
    overlaid source target place = target place := by
  cases place with
  | nil => rw [overlaid, h, Option.none_or]
  | cons name rest => simp only [overlaid, h]

end Kinds

namespace Entry

/-- What an entry is. -/
def kind : Entry → Kind
  | .file _ => .file
  | .dir _ => .dir

/-- The entry at a place below another one. -/
def walk : Entry → (place : List Bytes) → Option Entry
  | .dir entries, place => Folder.walk entries place
  | .file data, [] => some (.file data)
  | .file _, _ :: _ => none

/-- What is at each place below an entry. -/
def kinds (entry : Entry) : Kinds := fun place => (entry.walk place).map kind

end Entry

namespace Folder

variable {folder inner : Folder} {entry : Entry} {name : Bytes} {place : List Bytes}

/-- What is at each place of a tree. -/
def kinds (folder : Folder) : Kinds := (Entry.dir folder).kinds

/-! ## Ways through a tree -/

theorem walk_nil (folder : Folder) : folder.walk [] = some (.dir folder) := by
  simp only [walk]

/-- A way goes on from the entry with its first name. -/
theorem walk_name (folder : Folder) (name : Bytes) (rest : List Bytes) :
    folder.walk (name :: rest) = (find? name folder).bind (·.walk rest) := by
  cases hfound : find? name folder with
  | none => cases rest <;> simp only [walk, hfound, Option.bind_none]
  | some entry =>
    cases entry with
    | dir entries => exact walk_cons hfound rest
    | file data => cases rest <;> simp only [walk, hfound, Option.bind_some, Entry.walk]

theorem walk_append (folder : Folder) (place rest : List Bytes) :
    folder.walk (place ++ rest) = (folder.walk place).bind (·.walk rest) := by
  induction place generalizing folder with
  | nil => rw [List.nil_append, walk_nil]; rfl
  | cons name place ih =>
    rw [List.cons_append, walk_name, walk_name]
    cases find? name folder with
    | none => rfl
    | some entry =>
      cases entry with
      | dir entries => exact ih entries
      | file data =>
        -- a file ends every way that goes on
        cases place with
        | nil => rfl
        | cons next place => rfl

theorem kinds_nil (folder : Folder) : folder.kinds [] = some .dir := by
  simp only [kinds, Entry.kinds, Entry.walk, walk_nil, Option.map_some, Entry.kind]

theorem kinds_name (folder : Folder) (name : Bytes) (rest : List Bytes) :
    folder.kinds (name :: rest) = (find? name folder).bind (·.kinds rest) := by
  simp only [kinds, Entry.kinds, Entry.walk, walk_name]
  cases find? name folder <;> rfl

theorem kinds_append (folder : Folder) (place rest : List Bytes) :
    folder.kinds (place ++ rest) = (folder.walk place).bind (·.kinds rest) := by
  simp only [kinds, Entry.kinds, Entry.walk, walk_append]
  cases folder.walk place <;> rfl

/-- Below an entry is what the entry shows. -/
theorem kinds_below (h : folder.walk place = some entry) :
    folder.kinds.below place = entry.kinds := by
  funext rest
  rw [Kinds.below, kinds_append, h, Option.bind_some]

theorem kinds_eq_dir_iff :
    folder.kinds place = some .dir ↔ ∃ inner, folder.walk place = some (.dir inner) := by
  cases h : folder.walk place with
  | none => simp [kinds, Entry.kinds, Entry.walk, h]
  | some entry =>
    cases entry with
    | file data => simp [kinds, Entry.kinds, Entry.walk, h, Entry.kind]
    | dir entries => simp [kinds, Entry.kinds, Entry.walk, h, Entry.kind]

/-- There is nothing below a place where no directory is. -/
theorem walk_append_of_ne_dir (h : folder.kinds place ≠ some .dir) {rest : List Bytes}
    (hne : rest ≠ []) : folder.walk (place ++ rest) = none := by
  rw [walk_append]
  cases hwalk : folder.walk place with
  | none => rfl
  | some entry =>
    cases entry with
    | dir entries => exact absurd (kinds_eq_dir_iff.2 ⟨entries, hwalk⟩) h
    | file data =>
      obtain ⟨next, rest, rfl⟩ := List.exists_cons_of_ne_nil hne
      rfl

theorem kinds_append_of_ne_dir (h : folder.kinds place ≠ some .dir) {rest : List Bytes}
    (hne : rest ≠ []) : folder.kinds (place ++ rest) = none :=
  congrArg (Option.map Entry.kind) (walk_append_of_ne_dir h hne)

/-! ## Changes -/

theorem walk_empty {other : List Bytes} (hne : other ≠ []) : walk [] other = none := by
  obtain ⟨name, rest, rfl⟩ := List.exists_cons_of_ne_nil hne
  rw [walk_name]
  rfl

theorem kinds_empty {other : List Bytes} (hne : other ≠ []) : kinds [] other = none :=
  congrArg (Option.map Entry.kind) (walk_empty hne)

/-- A folder in which one name has come to be that of another folder. -/
theorem walk_of_find? {changed : Folder}
    (h : ∀ key, find? key changed = if key = name then some (.dir inner) else find? key folder)
    (key : Bytes) (below : List Bytes) :
    changed.walk (key :: below) =
      if key = name then inner.walk below else folder.walk (key :: below) := by
  rw [walk_name, h]
  split
  · rfl
  · rw [walk_name]

/-- The first step of a walk that is not stopped: it goes on in the folder of that name, or in an empty
one that is put there. -/
theorem makeDirs_step {rest : List Bytes} (h : (makeDirs (name :: rest) folder).2 = none) :
    ∃ inner : Folder, (makeDirs rest inner).2 = none ∧
      (∀ key, find? key (makeDirs (name :: rest) folder).1 =
        if key = name then some (.dir (makeDirs rest inner).1) else find? key folder) ∧
      ∀ below, below ≠ [] → folder.walk (name :: below) = inner.walk below := by
  cases hfound : find? name folder with
  | none =>
    refine ⟨[], makeDirs_nil_stop rest, fun key => ?_, fun below hne => ?_⟩
    · simp only [makeDirs, hfound]
      exact find?_insert key name _ folder
    · rw [walk_name, hfound, walk_empty hne]
      rfl
  | some entry =>
    cases entry with
    | file data => simp only [makeDirs, hfound, reduceCtorEq] at h
    | dir inner =>
      simp only [makeDirs, hfound, Option.map_eq_none_iff] at h
      refine ⟨inner, h, fun key => ?_, fun below _ => ?_⟩
      · simp only [makeDirs, hfound]
        exact find?_replace hfound key _
      · rw [walk_name, hfound]
        rfl

/-- **Nothing stops a walk exactly if no file is in its way.** -/
theorem makeDirs_stop_iff : (makeDirs place folder).2 = none ↔
    ∀ part, part <+: place → folder.kinds part ≠ some .file := by
  induction place generalizing folder with
  | nil =>
    refine ⟨fun _ part hpart => ?_, fun _ => rfl⟩
    rw [List.prefix_nil.1 hpart, kinds_nil]
    exact nofun
  | cons name rest ih =>
    -- the top is a folder, so only what is below the first name matters
    have hparts : (∀ part, part <+: name :: rest → folder.kinds part ≠ some .file) ↔
        ∀ part, part <+: rest → folder.kinds (name :: part) ≠ some .file := by
      constructor
      · intro h part hpart
        exact h _ (List.cons_prefix_cons.2 ⟨rfl, hpart⟩)
      · intro h part hpart
        cases part with
        | nil =>
          rw [kinds_nil]
          exact nofun
        | cons key part =>
          obtain ⟨rfl, hbelow⟩ := List.cons_prefix_cons.1 hpart
          exact h part hbelow
    rw [hparts]
    simp only [kinds_name]
    cases hfound : find? name folder with
    | none => simp [makeDirs, hfound, makeDirs_nil_stop]
    | some entry =>
      cases entry with
      | file data =>
        simp only [makeDirs, hfound, reduceCtorEq, false_iff]
        exact fun h => h [] List.nil_prefix rfl
      | dir inner =>
        simp only [makeDirs, hfound, Option.map_eq_none_iff, ih]
        rfl

/-- **Directories made along a way**, whatever is asked of entries. -/
theorem shown_makeDirs {β : Type} {f : Entry → β} (hf : ∀ a b, f (.dir a) = f (.dir b))
    (h : (makeDirs place folder).2 = none) (other : List Bytes) :
    ((makeDirs place folder).1.walk other).map f =
      if other <+: place then some (f (.dir [])) else (folder.walk other).map f := by
  induction place generalizing folder other with
  | nil =>
    cases other with
    | nil => simp [makeDirs, walk_nil, hf folder []]
    | cons key rest => simp [makeDirs]
  | cons name rest ih =>
    obtain ⟨inner, hstop, hstep, hsame⟩ := makeDirs_step h
    cases other with
    | nil => simp [walk_nil, hf _ []]
    | cons key below =>
      rw [walk_of_find? hstep]
      simp only [List.cons_prefix_cons]
      by_cases hkey : key = name
      · subst hkey
        rw [if_pos rfl, ih hstop]
        by_cases hpre : below <+: rest
        · rw [if_pos hpre, if_pos ⟨rfl, hpre⟩]
        · have hne : below ≠ [] := fun hnil => hpre (hnil ▸ List.nil_prefix)
          rw [if_neg hpre, if_neg (fun h => hpre h.2), hsame below hne]
      · rw [if_neg hkey, if_neg (fun h => hkey h.1)]

theorem kinds_makeDirs (h : (makeDirs place folder).2 = none) :
    (makeDirs place folder).1.kinds = folder.kinds.made place :=
  funext (shown_makeDirs (fun _ _ => rfl) h)

/-- **A change of the folder at a place** is seen at that place and below, and nowhere else. Of a
directory, `f` must tell no more than that it is one: those on the way have changed inside. -/
theorem shown_update {β : Type} {f : Entry → β} (hf : ∀ a b, f (.dir a) = f (.dir b))
    (h : folder.walk place = some (.dir inner)) (change : Folder → Folder) (other : List Bytes) :
    ((update change place folder).walk other).map f =
      if place <+: other then ((change inner).walk (other.drop place.length)).map f
      else (folder.walk other).map f := by
  induction place generalizing folder other with
  | nil =>
    rw [walk_nil] at h
    cases h
    rw [if_pos List.nil_prefix]
    rfl
  | cons name rest ih =>
    rw [walk_name] at h
    obtain ⟨entry, hfound, hwalk⟩ := Option.bind_eq_some_iff.1 h
    cases entry with
    | file data =>
      cases rest with
      | nil => cases hwalk
      | cons next rest => cases hwalk
    | dir middle =>
      simp only [update, hfound]
      cases other with
      | nil => simp [walk_nil, hf _ folder]
      | cons key below =>
        rw [walk_of_find? fun key => find?_replace hfound key _]
        simp only [List.cons_prefix_cons]
        by_cases hkey : key = name
        · subst hkey
          rw [if_pos rfl, ih hwalk, walk_name, hfound]
          by_cases hpre : rest <+: below
          · rw [if_pos hpre, if_pos ⟨rfl, hpre⟩]
            rfl
          · rw [if_neg hpre, if_neg (fun h => hpre h.2)]
            rfl
        · rw [if_neg hkey, if_neg (fun h => hkey h.1.symm)]

/-- Nothing changes where there is no folder. -/
theorem update_of_ne_dir (h : folder.kinds place ≠ some .dir) (change : Folder → Folder) :
    update change place folder = folder := by
  induction place generalizing folder with
  | nil => exact absurd (kinds_nil folder) h
  | cons name rest ih =>
    rw [kinds_name] at h
    rw [update]
    split
    · next inner hfound =>
      rw [hfound, Option.bind_some] at h
      rw [ih h]
      exact replace_find? hfound
    · rfl

/-- **A change of one name in the folder at a place.** -/
theorem shown_changeAt {β : Type} {f : Entry → β} (hf : ∀ a b, f (.dir a) = f (.dir b))
    {change : Folder → Folder} {new? : Option Entry}
    (hchange : ∀ inner, folder.walk place = some (.dir inner) →
      ∀ key, find? key (change inner) = if key = name then new? else find? key inner)
    (other : List Bytes) :
    ((update change place folder).walk other).map f =
      if folder.kinds place = some .dir ∧ place ++ [name] <+: other then
        (new?.bind (·.walk (other.drop (place ++ [name]).length))).map f
      else (folder.walk other).map f := by
  by_cases hdir : folder.kinds place = some .dir
  · obtain ⟨inner, hwalk⟩ := kinds_eq_dir_iff.1 hdir
    rw [shown_update hf hwalk]
    by_cases hpre : place <+: other
    · obtain ⟨rest, rfl⟩ := hpre
      rw [if_pos (List.prefix_append place rest), List.drop_left]
      cases rest with
      | nil =>
        rw [List.append_nil, if_neg, walk_nil, hwalk, Option.map_some, Option.map_some, hf]
        rintro ⟨-, hlong⟩
        have hlength := hlong.length_le
        rw [List.length_append, List.length_singleton] at hlength
        omega
      | cons key below =>
        rw [walk_name, hchange inner hwalk]
        by_cases hkey : key = name
        · subst hkey
          have hplace : place ++ key :: below = (place ++ [key]) ++ below := by simp
          rw [hplace, if_pos rfl, if_pos ⟨hdir, List.prefix_append _ _⟩, List.drop_left]
        · rw [if_neg hkey, if_neg, walk_append, hwalk, Option.bind_some]
          · exact congrArg (Option.map f) (walk_name inner key below).symm
          · rintro ⟨-, hlong⟩
            rw [List.prefix_append_right_inj, List.cons_prefix_cons] at hlong
            exact hkey hlong.1.symm
    · rw [if_neg hpre, if_neg]
      rintro ⟨-, hlong⟩
      exact hpre ((List.prefix_append place [name]).trans hlong)
  · rw [update_of_ne_dir hdir, if_neg (fun h => hdir h.1)]

/-- What is at each place after a change of one name in the folder at a place. -/
theorem kinds_changeAt {change : Folder → Folder} {new? : Option Entry}
    (hchange : ∀ inner, folder.walk place = some (.dir inner) →
      ∀ key, find? key (change inner) = if key = name then new? else find? key inner) :
    (update change place folder).kinds =
      folder.kinds.grafted (place ++ [name]) fun rest => new?.bind (·.kinds rest) := by
  funext other
  rw [Kinds.grafted, List.dropLast_concat]
  refine (shown_changeAt (fun _ _ => rfl) hchange other).trans ?_
  cases new? <;> rfl

/-- **An entry put into the folder at a place.** -/
theorem kinds_insertAt (place : List Bytes) (name : Bytes) (entry : Entry) (folder : Folder) :
    (update (insert name entry) place folder).kinds =
      folder.kinds.grafted (place ++ [name]) entry.kinds :=
  kinds_changeAt fun inner _ key => find?_insert key name entry inner

/-- **An entry taken from the folder at a place**, whatever is asked of entries. -/
theorem shown_eraseAt {β : Type} {f : Entry → β} (hf : ∀ a b, f (.dir a) = f (.dir b))
    (hordered : folder.ordered = true) (place : List Bytes) (name : Bytes) (other : List Bytes) :
    ((update (erase name) place folder).walk other).map f =
      if place ++ [name] <+: other then none else (folder.walk other).map f := by
  have hchange := shown_changeAt hf
    (fun inner (hwalk : folder.walk place = some (.dir inner)) key =>
      find?_erase (ordered_walk hordered hwalk) key name) other
  rw [hchange]
  by_cases hpre : place ++ [name] <+: other
  · rw [if_pos hpre]
    split
    · rfl
    · next hnot =>
      have hdir : folder.kinds place ≠ some .dir := fun hdir => hnot ⟨hdir, hpre⟩
      obtain ⟨rest, rfl⟩ := hpre
      have hnone : folder.walk (place ++ ([name] ++ rest)) = none :=
        walk_append_of_ne_dir hdir (List.cons_ne_nil name rest)
      rw [List.append_assoc, hnone]
      rfl
  · rw [if_neg hpre, if_neg (fun h => hpre h.2)]

/-- **A file put into a folder after the way to it was made**, whatever is asked of entries. -/
theorem shown_written {β : Type} {f : Entry → β} (hf : ∀ a b, f (.dir a) = f (.dir b))
    (h : (makeDirs place folder).2 = none) (hfree : folder.kinds (place ++ [name]) ≠ some .dir)
    (data : Bytes) (other : List Bytes) :
    ((update (insert name (.file data)) place (makeDirs place folder).1).walk other).map f =
      if other = place ++ [name] then some (f (.file data))
      else if other <+: place ++ [name] then some (f (.dir [])) else (folder.walk other).map f := by
  have hplace : (makeDirs place folder).1.kinds place = some .dir := by
    rw [kinds_makeDirs h, Kinds.made, if_pos List.prefix_rfl]
  have hchange := shown_changeAt hf
    (fun inner (_ : (makeDirs place folder).1.walk place = some (.dir inner)) key =>
      find?_insert key name (.file data) inner) other
  rw [hchange, shown_makeDirs hf h]
  simp only [hplace, true_and]
  by_cases hbelow : place ++ [name] <+: other
  · obtain ⟨rest, rfl⟩ := hbelow
    rw [if_pos (List.prefix_append _ _), List.drop_left]
    cases rest with
    | nil =>
      rw [List.append_nil, if_pos rfl]
      rfl
    | cons next rest =>
      -- there was nothing here before, since no directory is at the place
      have hlong : ¬ place ++ [name] ++ next :: rest <+: place ++ [name] := by
        intro hpre
        have hlength := hpre.length_le
        simp only [List.length_append, List.length_cons] at hlength
        omega
      have hne : place ++ [name] ++ next :: rest ≠ place ++ [name] := fun heq => by simp at heq
      rw [if_neg hne, if_neg hlong, walk_append_of_ne_dir hfree (List.cons_ne_nil next rest)]
      rfl
  · have hne : other ≠ place ++ [name] := fun heq => hbelow (heq ▸ List.prefix_rfl)
    have hiff : other <+: place ++ [name] ↔ other <+: place := by
      rw [List.prefix_concat_iff]
      exact or_iff_right hne
    rw [if_neg hbelow, if_neg hne]
    simp only [hiff]

theorem overlay_none (entry : Entry) : overlay entry none = entry := by
  cases entry <;> rfl

/-- What has a name in a directory laid over something else. -/
theorem walk_overlay (hinner : inner.ordered = true) (old? : Option Entry) (name : Bytes) :
    (overlay (.dir inner) old?).walk [name] =
      match find? name inner with
      | none => old?.bind (·.walk [name])
      | some entry => some (overlay entry (old?.bind (·.walk [name]))) := by
  match old? with
  | some (.dir outer) => exact find?_merge hinner name outer
  | none | some (.file _) =>
    refine Eq.trans (b := find? name inner) rfl ?_
    cases find? name inner with
    | none => rfl
    | some entry => exact congrArg some (overlay_none entry).symm

/-- A way from an entry goes on from what has its first name there. -/
theorem walk_entry_name (entry : Entry) (name : Bytes) (rest : List Bytes) :
    entry.walk (name :: rest) = (entry.walk [name]).bind (·.walk rest) := by
  cases entry with
  | file data => rfl
  | dir inner => exact walk_name inner name rest

theorem kinds_entry_name (entry : Entry) (name : Bytes) (rest : List Bytes) :
    entry.kinds (name :: rest) = (entry.walk [name]).bind (·.kinds rest) := by
  simp only [Entry.kinds, walk_entry_name entry name rest, Option.map_bind, Function.comp_def]

/-- **One tree laid over another.** -/
theorem kinds_overlay (hentry : entry.ordered = true) (old? : Option Entry) :
    (overlay entry old?).kinds = entry.kinds.overlaid fun rest => old?.bind (·.kinds rest) := by
  funext place
  induction place generalizing entry old? with
  | nil =>
    cases entry with
    | file data => rfl
    | dir inner =>
      match old? with
      | none | some (.file _) | some (.dir _) => rfl
  | cons name rest ih =>
    cases entry with
    | file data => rfl
    | dir inner =>
      have hdir : (Entry.dir inner).kinds [] = some .dir := kinds_nil inner
      have hsource : (Entry.dir inner).kinds.below [name] = fun rest =>
          (find? name inner).bind (·.kinds rest) := funext (kinds_name inner name)
      have htarget : (Kinds.below fun rest => old?.bind (·.kinds rest)) [name] = fun rest =>
          (old?.bind (·.walk [name])).bind (·.kinds rest) := by
        funext rest
        cases old? with
        | none => rfl
        | some old => exact kinds_entry_name old name rest
      simp only [Kinds.overlaid, hdir]
      rw [kinds_entry_name, walk_overlay hentry, hsource, htarget]
      cases hfound : find? name inner with
      | none =>
        symm
        exact Kinds.overlaid_of_none rfl _ rest
      | some found => exact ih (ordered_find? hentry hfound) _

end Folder

end BuildScript
