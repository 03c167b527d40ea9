import BuildScript.Proofs.Machine.Copy
import BuildScript.Proofs.Machine.Writing

/-!
# Operations at independent places

Making, writing and removing touch a place, what is below it, and the directories on the way to it. If
neither of two places is above the other, two such operations meet only in directories above both, and
there both of them want a directory. Whether an operation goes through depends on the files in its way and
on what is at its place, and the other operation changes neither. So the two can be done in either order.

* `Patch`, `Contents.patched`: what a change puts at the places that it touches. `patched_comm`: **patches
  that agree where they meet can be applied in either order.**
* `Patch.Around`: a patch of one place. `Around.agree`: patches of independent places agree.
* `PathOperation`, `Folder.doesAt`, `Machine.doesAt`: making, writing and removing. `contents_doesAt`: what
  is at each place afterwards.
* `Folder.SameWay`: all that such an operation looks at. `result_congr`: **its result depends on nothing
  else.** `sameWay_doesAt`: an operation at an independent place changes none of it.
* `independent_operations_commute`: either order, for every machine that can be reached.
-/

namespace BuildScript

open BuildScript.Path (segments landing)

/-! ## Patches -/

/-- What a change puts at the places that it touches, which may be nothing. -/
abbrev Patch := List Bytes → Option (Option Node)

/-- What is at each place after a change. -/
def Contents.patched (contents : Contents) (patch : Patch) : Contents :=
  fun other => (patch other).getD (contents other)

/-- **Patches that agree where they meet** can be applied in either order. -/
theorem Contents.patched_comm {a b : Patch}
    (h : ∀ other x y, a other = some x → b other = some y → x = y) (contents : Contents) :
    (contents.patched a).patched b = (contents.patched b).patched a := by
  funext other
  unfold patched
  cases ha : a other with
  | none => rfl
  | some x =>
    cases hb : b other with
    | none => rfl
    | some y => exact (h other x y ha hb).symm

/-- A patch that touches a place, what is below it, and directories on the way to it. -/
def Patch.Around (patch : Patch) (place : List Bytes) : Prop :=
  ∀ other new, patch other = some new → place <+: other ∨ (other <+: place ∧ new = some .dir)

/-- **Patches of independent places agree**: where they meet, there are directories above both. -/
theorem Patch.Around.agree {a b : Patch} {p q : List Bytes} (ha : a.Around p) (hb : b.Around q)
    (hpq : ¬ p <+: q) (hqp : ¬ q <+: p) (other : List Bytes) (x y : Option Node)
    (hx : a other = some x) (hy : b other = some y) : x = y := by
  rcases ha other x hx with hp | ⟨hp, hdir⟩
  · rcases hb other y hy with hq | ⟨hq, -⟩
    · exact ((List.prefix_or_prefix_of_prefix hp hq).elim hpq hqp).elim
    · exact absurd (hp.trans hq) hpq
  · rcases hb other y hy with hq | ⟨-, hdir'⟩
    · exact absurd (hq.trans hp) hqp
    · rw [hdir, hdir']

/-! ## Operations at one path -/

/-- An operation that works at one path. -/
inductive PathOperation where
  | makeDir
  | put (data : Bytes)
  | remove

namespace PathOperation

/-- What an operation at a place changes if it goes through. -/
def patch (place : List Bytes) : PathOperation → Patch
  | makeDir => fun other => if other <+: place then some (some .dir) else none
  | put data => fun other =>
    if other = place then some (some (.file data))
    else if other <+: place then some (some .dir) else none
  | remove => fun other => if place <+: other ∧ other ≠ [] then some none else none

/-- What an operation at a place changes. An operation that fails changes nothing. -/
def effect (place : List Bytes) (operation : PathOperation) : Except FileFault Unit → Patch
  | .ok _ => operation.patch place
  | .error _ => fun _ => none

/-- What an operation reports itself as. -/
def label : PathOperation → Bytes
  | makeDir => bytes "mkdir"
  | put _ => bytes "write"
  | remove => bytes "rm"

variable {place : List Bytes}

theorem around_patch (operation : PathOperation) : (operation.patch place).Around place := by
  intro other new hnew
  cases operation with
  | makeDir =>
    rw [patch, Option.ite_none_right_eq_some] at hnew
    exact Or.inr ⟨hnew.1, (Option.some.inj hnew.2).symm⟩
  | put data =>
    simp only [patch] at hnew
    split at hnew
    · next heq => exact Or.inl (heq ▸ List.prefix_rfl)
    · rw [Option.ite_none_right_eq_some] at hnew
      exact Or.inr ⟨hnew.1, (Option.some.inj hnew.2).symm⟩
  | remove =>
    rw [patch, Option.ite_none_right_eq_some] at hnew
    exact Or.inl hnew.1.1

theorem around_effect (operation : PathOperation) (result : Except FileFault Unit) :
    (operation.effect place result).Around place := by
  cases result with
  | ok value => exact around_patch operation
  | error fault => exact fun _ _ hnew => nomatch hnew

end PathOperation

namespace Contents

variable (contents : Contents) (place : List Bytes)

theorem made_eq_patched : contents.made place = contents.patched (PathOperation.makeDir.patch place) := by
  funext other
  unfold made patched PathOperation.patch
  by_cases hpart : other <+: place
  · simp only [if_pos hpart, Option.getD_some]
  · simp only [if_neg hpart, Option.getD_none]

theorem written_eq_patched (data : Bytes) :
    contents.written place data = contents.patched ((PathOperation.put data).patch place) := by
  funext other
  unfold written made patched PathOperation.patch
  by_cases hplace : other = place
  · simp only [if_pos hplace, Option.getD_some]
  · by_cases hpart : other <+: place
    · simp only [if_neg hplace, if_pos hpart, Option.getD_some]
    · simp only [if_neg hplace, if_neg hpart, Option.getD_none]

theorem removed_eq_patched :
    contents.removed place = contents.patched (PathOperation.remove.patch place) := by
  funext other
  unfold removed patched PathOperation.patch
  by_cases hbelow : place <+: other ∧ other ≠ []
  · simp only [if_pos hbelow, Option.getD_some]
  · simp only [if_neg hbelow, Option.getD_none]

end Contents

namespace Folder

variable {root other : Folder} {path data : Bytes} {place : List Bytes}

/-- A tree after an operation at an absolute clean path. -/
def doesAt (root : Folder) (path : Bytes) : PathOperation → Edit Unit
  | .makeDir => root.makeDir path
  | .put data => root.put path data
  | .remove => ⟨root.remove path, .ok ()⟩

theorem ordered_doesAt (hroot : root.ordered = true) (path : Bytes) (operation : PathOperation) :
    (root.doesAt path operation).root.ordered = true := by
  cases operation with
  | makeDir => exact ordered_makeDir hroot path
  | put data => exact ordered_put hroot path data
  | remove => exact ordered_remove hroot path

theorem allOrNothing_doesAt (path : Bytes) (operation : PathOperation) :
    (root.doesAt path operation).AllOrNothing root := by
  cases operation with
  | makeDir => exact allOrNothing_makeDir path
  | put data => exact allOrNothing_put path data
  | remove => exact Edit.allOrNothing_ok _ _

/-- **What is at each place after an operation**, whether it went through or not. -/
theorem contents_doesAt (hroot : root.ordered = true)
    (hpath : path ≠ Path.root → segments path = landing path) (operation : PathOperation) :
    (root.doesAt path operation).root.contents =
      root.contents.patched (operation.effect (segments path) (root.doesAt path operation).result) := by
  cases hresult : (root.doesAt path operation).result with
  | error fault =>
    rw [allOrNothing_doesAt path operation fault hresult]
    rfl
  | ok value =>
    cases operation with
    | makeDir => exact (contents_makeDir hresult).trans (Contents.made_eq_patched _ _)
    | put data =>
      rw [doesAt] at hresult
      exact (contents_put hpath hresult).trans (Contents.written_eq_patched _ _ data)
    | remove => exact (contents_remove hroot hpath).trans (Contents.removed_eq_patched _ _)

/-! ## What an operation looks at -/

/-- **A walk is stopped at the file in its way**: below a file there is no other. -/
theorem makeDirs_stop_eq_some_iff {stop : List Bytes} :
    (makeDirs place root).2 = some stop ↔ stop <+: place ∧ root.kinds stop = some .file := by
  induction place generalizing root stop with
  | nil =>
    constructor
    · intro h
      cases h
    · rintro ⟨hstop, hfile⟩
      rw [List.prefix_nil.1 hstop, kinds_nil] at hfile
      cases hfile
  | cons name rest ih =>
    -- the top is a folder, so a file in the way has a first name
    have htop : stop <+: name :: rest ∧ root.kinds stop = some .file ↔
        ∃ below, below <+: rest ∧ (find? name root).bind (·.kinds below) = some .file ∧
          name :: below = stop := by
      constructor
      · rintro ⟨hstop, hfile⟩
        cases stop with
        | nil =>
          rw [kinds_nil] at hfile
          cases hfile
        | cons first below =>
          obtain ⟨rfl, hbelow⟩ := List.cons_prefix_cons.1 hstop
          rw [kinds_name] at hfile
          exact ⟨below, hbelow, hfile, rfl⟩
      · rintro ⟨below, hbelow, hfile, rfl⟩
        rw [kinds_name]
        exact ⟨List.cons_prefix_cons.2 ⟨rfl, hbelow⟩, hfile⟩
    rw [htop]
    cases hfound : find? name root with
    | none => simp [makeDirs, hfound, makeDirs_nil_stop]
    | some entry =>
      cases entry with
      | file data =>
        simp only [makeDirs, hfound, Option.bind_some]
        constructor
        · intro h
          exact ⟨[], List.nil_prefix, rfl, Option.some.inj h⟩
        · rintro ⟨below, -, hfile, rfl⟩
          cases below with
          | nil => rfl
          | cons first below => cases hfile
      | dir inner =>
        simp only [makeDirs, hfound, Option.bind_some, Option.map_eq_some_iff, ih, and_assoc]
        rfl

/-- The same files are in the way to a place of two trees, and both or neither have a directory there. -/
structure SameWay (a b : Folder) (place : List Bytes) : Prop where
  files : ∀ part, part <+: place → (a.kinds part = some .file ↔ b.kinds part = some .file)
  dir : a.kinds place = some .dir ↔ b.kinds place = some .dir

theorem SameWay.refl (root : Folder) (place : List Bytes) : SameWay root root place :=
  ⟨fun _ _ => Iff.rfl, Iff.rfl⟩

theorem makeDir_result_congr
    (h : ∀ part, part <+: segments path → (root.kinds part = some .file ↔ other.kinds part = some .file)) :
    (makeDir path root).result = (makeDir path other).result := by
  have hresult : ∀ folder : Folder, (makeDir path folder).result =
      match (makeDirs (segments path) folder).2 with
      | none => .ok ()
      | some place => .error (.notDirectory (pathOf place false)) := by
    intro folder
    unfold makeDir
    split <;> simp [*]
  have hstop : (makeDirs (segments path) root).2 = (makeDirs (segments path) other).2 := by
    apply Option.ext
    intro stop
    rw [makeDirs_stop_eq_some_iff, makeDirs_stop_eq_some_iff]
    exact and_congr_right fun hpart => h stop hpart
  rw [hresult, hresult, hstop]

/-- How writing a file ends: as making the directories above it does, unless a directory is in its place. -/
theorem put_result (hne : path ≠ Path.root) :
    (put path data root).result =
      match (makeDir (Path.splitLast path).1 root).result with
      | .error fault => .error fault
      | .ok () => if root.kinds (landing path) = some .dir then .error (.isDirectory path) else .ok () := by
  cases habove : makeDir (Path.splitLast path).1 root with
  | mk made result =>
    cases result with
    | error fault => simp only [put, if_neg hne, habove]
    | ok value =>
      have hstop := makeDir_ok_iff.1 (congrArg Edit.result habove)
      by_cases hdir : root.kinds (landing path) = some .dir
      · -- the result is the one fault that is left
        have hnot : (put path data root).result ≠ .ok () := fun hok => (put_ok_iff.1 hok).2.2 hdir
        simp only [if_pos hdir]
        simp only [put, if_neg hne, habove] at hnot ⊢
        split
        · rfl
        · simp at hnot
      · simp only [if_neg hdir]
        exact put_ok_iff.2 ⟨hne, hstop, hdir⟩

/-- **The result of an operation depends on the way to its place**, and on nothing else. -/
theorem result_congr (hpath : path ≠ Path.root → segments path = landing path)
    (h : SameWay root other (segments path)) (operation : PathOperation) :
    (root.doesAt path operation).result = (other.doesAt path operation).result := by
  cases operation with
  | makeDir => exact makeDir_result_congr h.files
  | put data =>
    by_cases htop : path = Path.root
    · simp only [doesAt, put, if_pos htop]
    · have hplace := hpath htop
      have habove : (makeDir (Path.splitLast path).1 root).result =
          (makeDir (Path.splitLast path).1 other).result := by
        refine makeDir_result_congr fun part hpart => h.files part (hpart.trans ?_)
        rw [hplace, landing]
        exact List.prefix_append _ _
      have hdir := h.dir
      rw [hplace] at hdir
      simp only [doesAt, put_result htop, habove, hdir]
  | remove => rfl

/-! ## Operations at independent places -/

/-- An operation that goes through makes directories only where no file is. -/
theorem kinds_ne_file_of_ok (hpath : path ≠ Path.root → segments path = landing path)
    {operation : PathOperation} (hok : (root.doesAt path operation).result = .ok ())
    {part : List Bytes} (hbelow : ¬ segments path <+: part)
    (htouched : operation.patch (segments path) part ≠ none) : root.kinds part ≠ some .file := by
  obtain ⟨new, hnew⟩ := Option.ne_none_iff_exists'.1 htouched
  have hpart : part <+: segments path :=
    ((operation.around_patch part new hnew).resolve_left hbelow).1
  cases operation with
  | makeDir => exact makeDirs_stop_iff.1 (makeDir_ok_iff.1 hok) part hpart
  | put data =>
    have hne : part ≠ segments path := fun heq => hbelow (heq ▸ List.prefix_rfl)
    rw [doesAt] at hok
    exact ((put_ok_iff_way hpath).1 hok).2.1 part hpart hne
  | remove =>
    rw [PathOperation.patch, Option.ite_none_right_eq_some] at hnew
    exact absurd hnew.1.1 hbelow

/-- **An operation leaves the way to an independent place as it is.** -/
theorem sameWay_doesAt (hroot : root.ordered = true)
    (hpath : path ≠ Path.root → segments path = landing path) (operation : PathOperation)
    (hpq : ¬ segments path <+: place) (hqp : ¬ place <+: segments path) :
    SameWay (root.doesAt path operation).root root place := by
  cases hresult : (root.doesAt path operation).result with
  | error fault =>
    rw [allOrNothing_doesAt path operation fault hresult]
    exact SameWay.refl root place
  | ok value =>
    have hafter : ∀ part, (root.doesAt path operation).root.kinds part =
        ((operation.patch (segments path) part).getD (root.contents part)).map Node.kind := by
      intro part
      rw [kinds_eq_contents, contents_doesAt hroot hpath, hresult]
      rfl
    constructor
    · intro part hpart
      have hbelow : ¬ segments path <+: part := fun hpre => hpq (hpre.trans hpart)
      rw [hafter]
      cases htouched : operation.patch (segments path) part with
      | none => rw [Option.getD_none, ← kinds_eq_contents]
      | some new =>
        -- a directory on the way to both places
        have hdir := ((operation.around_patch part new htouched).resolve_left hbelow).2
        have hfree := kinds_ne_file_of_ok hpath hresult hbelow (htouched ▸ Option.some_ne_none new)
        rw [hdir]
        exact iff_of_false (fun hfile => nomatch hfile) hfree
    · have huntouched : operation.patch (segments path) place = none := by
        cases htouched : operation.patch (segments path) place with
        | none => rfl
        | some new =>
          rcases operation.around_patch place new htouched with hpre | ⟨hpre, -⟩
          · exact absurd hpre hpq
          · exact absurd hpre hqp
      rw [hafter, huntouched, Option.getD_none, ← kinds_eq_contents]

section Independent

variable {p q : Bytes} (hroot : root.ordered = true) (hp : p ≠ Path.root → segments p = landing p)
  (hq : q ≠ Path.root → segments q = landing q) (hpq : ¬ segments p <+: segments q)
  (hqp : ¬ segments q <+: segments p)
include hroot hp hq hpq hqp

/-- An operation ends as it does without one at an independent place before it. -/
theorem result_doesAt_beside (first second : PathOperation) :
    ((root.doesAt p first).root.doesAt q second).result = (root.doesAt q second).result :=
  result_congr hq (sameWay_doesAt hroot hp first hpq hqp) second

/-- **Operations at independent places leave the same tree** in either order. -/
theorem doesAt_comm (first second : PathOperation) :
    ((root.doesAt p first).root.doesAt q second).root =
      ((root.doesAt q second).root.doesAt p first).root := by
  have hfirst := ordered_doesAt hroot p first
  have hsecond := ordered_doesAt hroot q second
  apply eq_of_contents _ _ (ordered_doesAt hfirst q second) (ordered_doesAt hsecond p first)
  rw [contents_doesAt hfirst hq, contents_doesAt hsecond hp, contents_doesAt hroot hp,
    contents_doesAt hroot hq, result_doesAt_beside hroot hp hq hpq hqp,
    result_doesAt_beside hroot hq hp hqp hpq]
  apply Contents.patched_comm
  exact (first.around_effect _).agree (second.around_effect _) hpq hqp

end Independent

end Folder

namespace Machine

variable {m : Machine} {p q : Bytes}

/-- A machine after an operation at a path. -/
def doesAt (m : Machine) (path : Bytes) : PathOperation → Change
  | .makeDir => m.makeDir path
  | .put data => m.put path data
  | .remove => ⟨(m.remove path).1, (m.remove path).2, none⟩

/-- An operation is an edit of the tree, whatever the tree of the machine is. -/
theorem doesAt_eq (m : Machine) (root : Folder) (path : Bytes) (operation : PathOperation) :
    doesAt { m with root } path operation =
      m.edited (root.doesAt (m.resolve path) operation)
        fun _ => [.file operation.label (m.resolve path) []] := by
  cases operation with
  | makeDir => exact edited_root m root _ _
  | put data => exact edited_root m root _ _
  | remove => rfl

/-- Two operations one after the other are two edits of the tree. -/
theorem doesAt_doesAt (m : Machine) (p q : Bytes) (first second : PathOperation) :
    (m.doesAt p first).machine.doesAt q second =
      m.edited ((m.root.doesAt (m.resolve p) first).root.doesAt (m.resolve q) second)
        fun _ => [.file second.label (m.resolve q) []] := by
  have hfirst : (m.doesAt p first).machine =
      { m with root := (m.root.doesAt (m.resolve p) first).root } := by
    rw [doesAt_eq m m.root, edited_machine]
  rw [hfirst, doesAt_eq]

/-- Edits of a machine that end in the same way report the same. -/
theorem edited_congr {a b : Edit Unit} (h : a.result = b.result) (events : Unit → List Event) :
    (m.edited a events).fault? = (m.edited b events).fault? ∧
      (m.edited a events).events = (m.edited b events).events := by
  obtain ⟨root, result⟩ := a
  obtain ⟨other, result'⟩ := b
  cases h
  cases result <;> exact ⟨rfl, rfl⟩

/-- **Operations at independent paths can be done in either order.** If neither path is the other one or
below it, each of the two operations goes through, or fails with the same fault, whether it comes first or
second, it reports the same, and the machine is left in the same state. -/
theorem independent_operations_commute (hm : m.Reachable) (first second : PathOperation)
    (hpq : ¬ Path.Within (m.resolve p) (m.resolve q)) (hqp : ¬ Path.Within (m.resolve q) (m.resolve p)) :
    ((m.doesAt q second).machine.doesAt p first).fault? = (m.doesAt p first).fault? ∧
    ((m.doesAt p first).machine.doesAt q second).fault? = (m.doesAt q second).fault? ∧
    ((m.doesAt q second).machine.doesAt p first).events = (m.doesAt p first).events ∧
    ((m.doesAt p first).machine.doesAt q second).events = (m.doesAt q second).events ∧
    ((m.doesAt p first).machine.doesAt q second).machine =
      ((m.doesAt q second).machine.doesAt p first).machine := by
  have hroot := hm.sound.ordered
  have hp := m.segments_resolve p
  have hq := m.segments_resolve q
  rw [doesAt_doesAt, doesAt_doesAt, doesAt_eq m m.root p, doesAt_eq m m.root q]
  obtain ⟨hfault, hevents⟩ := edited_congr (m := m)
    (Folder.result_doesAt_beside hroot hq hp hpq hqp second first)
    fun _ => [.file first.label (m.resolve p) []]
  obtain ⟨hfault', hevents'⟩ := edited_congr (m := m)
    (Folder.result_doesAt_beside hroot hp hq hqp hpq first second)
    fun _ => [.file second.label (m.resolve q) []]
  refine ⟨hfault, hfault', hevents, hevents', ?_⟩
  rw [edited_machine, edited_machine, Folder.doesAt_comm hroot hp hq hqp hpq]

/-- A file is written and a directory made below one that neither of them finds, and a directory that a
file keeps from being made is kept from it after its neighbour was removed too. -/
theorem independent_operations_commute_sample :
    oneFile.Reachable ∧
    ¬ Path.Within (oneFile.resolve (bytes "b/c/x")) (oneFile.resolve (bytes "a/../b/d")) ∧
    ¬ Path.Within (oneFile.resolve (bytes "a/../b/d")) (oneFile.resolve (bytes "b/c/x")) ∧
    ((oneFile.doesAt (bytes "b/c/x") (.put [7])).machine.doesAt (bytes "a/../b/d") .makeDir).machine =
      ((oneFile.doesAt (bytes "a/../b/d") .makeDir).machine.doesAt (bytes "b/c/x") (.put [7])).machine ∧
    ¬ Path.Within (oneFile.resolve (bytes "a/f/g")) (oneFile.resolve (bytes "a/k")) ∧
    ¬ Path.Within (oneFile.resolve (bytes "a/k")) (oneFile.resolve (bytes "a/f/g")) ∧
    ((oneFile.doesAt (bytes "a/k") .remove).machine.doesAt (bytes "a/f/g") .makeDir).fault? =
      some (.notDirectory (bytes "/a/f")) := by
  have hreachable : oneFile.Reachable := ⟨.zero, _, rfl⟩
  have hx : ¬ Path.Within (oneFile.resolve (bytes "b/c/x")) (oneFile.resolve (bytes "a/../b/d")) := by
    decide +kernel
  have hd : ¬ Path.Within (oneFile.resolve (bytes "a/../b/d")) (oneFile.resolve (bytes "b/c/x")) := by
    decide +kernel
  have hg : ¬ Path.Within (oneFile.resolve (bytes "a/f/g")) (oneFile.resolve (bytes "a/k")) := by
    decide +kernel
  have hk : ¬ Path.Within (oneFile.resolve (bytes "a/k")) (oneFile.resolve (bytes "a/f/g")) := by
    decide +kernel
  obtain ⟨-, -, -, -, hsame⟩ :=
    independent_operations_commute hreachable (.put [7]) .makeDir hx hd
  obtain ⟨hstopped, -⟩ := independent_operations_commute hreachable .makeDir .remove hg hk
  refine ⟨hreachable, hx, hd, hsame, hg, hk, hstopped.trans ?_⟩
  decide +kernel

end Machine

end BuildScript
