import BuildScript.Proofs.Path.Segments
import BuildScript.Proofs.Text.PathText

/-!
# Absolute clean paths

An absolute clean path is a row of proper names below the root, and every question about it is one
about that row.

* `IsProper`: a name that means itself: not empty, no slash in it, and neither `.` nor `..`.
* `ofNames`: the path that leads from the root through some names.
* `clean_of_isAbsolute`, `proper_reduce`: **cleaning an absolute path leaves a row of proper names**, all
  of them segments of the path.
* `mem_reduce`: of a relative path, segments of the path and steps up are left.
* `clean_ofNames`, `segments_ofNames`, `landing_ofNames`, `base_ofNames`, `join_ofNames`: the operations
  on such a row.
* `isClean_iff`: the paths that cleaning leaves as they are. `ofNames_segments`: their segments lead to them.
* `foldl_push_reduce`, `foldl_push_clean`: **where a relative path leads from a directory is not changed
  by cleaning it.**
* `startsWith_ofNames`: a path below another one.
* `isAbsolute_clean`, `mem_clean`: what cleaning does not change.
* `EndsIn`: the last segment of a path. `EndsIn.clean`: **a proper name at the end stays there.**
* `isPathText_clean`: a path that can be written can be written when it is cleaned.
-/

namespace BuildScript.Path

variable {p name last : Bytes} {names init stack : List Bytes}

/-- A name that means itself. -/
def IsProper (name : Bytes) : Prop := IsName name ∧ name ≠ here ∧ name ≠ up

/-- The path from the root through some names. -/
def ofNames (names : List Bytes) : Bytes := slash :: Bytes.join root names

/-- An absolute path that is left as it is by cleaning. -/
def IsClean (p : Bytes) : Prop := isAbsolute p = true ∧ clean p = p

instance (p : Bytes) : Decidable (IsClean p) :=
  inferInstanceAs (Decidable (isAbsolute p = true ∧ clean p = p))

/-! ## One more segment -/

theorem push_blank {segment : Bytes} (h : segment = [] ∨ segment = here) (rooted : Bool)
    (stack : List Bytes) : push rooted stack segment = stack := by
  simp only [push, Bool.or_eq_true, decide_eq_true_eq, if_pos h]

theorem push_up (rooted : Bool) (top : Bytes) (rest : List Bytes) :
    push rooted (top :: rest) up = if top = up then up :: top :: rest else rest := rfl

theorem push_name {segment : Bytes} (hblank : ¬ (segment = [] ∨ segment = here)) (hup : segment ≠ up)
    (rooted : Bool) (stack : List Bytes) : push rooted stack segment = segment :: stack := by
  simp only [push, Bool.or_eq_true, decide_eq_true_eq, if_neg hblank, if_neg hup]

theorem push_proper (h : IsProper name) (rooted : Bool) (stack : List Bytes) :
    push rooted stack name = name :: stack :=
  push_name (not_or.2 ⟨h.1.1, h.2.1⟩) h.2.2 rooted stack

/-! ## What cleaning leaves of an absolute path -/

/-- One more segment brings at most itself. At the root `..` brings nothing, since no `..` is on the
stack. -/
theorem mem_push {segment : Bytes} (hstack : ∀ n ∈ stack, IsProper n) (hslash : slash ∉ segment)
    (hname : name ∈ push true stack segment) : name ∈ stack ∨ (name = segment ∧ IsProper name) := by
  unfold push at hname
  split at hname
  · exact Or.inl hname
  rename_i hkept
  simp only [Bool.or_eq_true, decide_eq_true_eq, not_or] at hkept
  split at hname
  · cases stack with
    | nil => cases hname
    | cons top rest =>
      have htop : top ≠ up := (hstack top List.mem_cons_self).2.2
      simp only [if_neg htop] at hname
      exact Or.inl (List.mem_cons_of_mem top hname)
  · rename_i hup
    rcases List.mem_cons.1 hname with rfl | hname
    · exact Or.inr ⟨rfl, ⟨hkept.1, hslash⟩, hkept.2, hup⟩
    · exact Or.inl hname

theorem mem_foldl_push {segments : List Bytes} (hslash : ∀ s ∈ segments, slash ∉ s) :
    ∀ stack : List Bytes, (∀ n ∈ stack, IsProper n) → ∀ n ∈ segments.foldl (push true) stack,
      IsProper n ∧ (n ∈ stack ∨ n ∈ segments) := by
  induction segments with
  | nil => exact fun stack hstack n hn => ⟨hstack n hn, Or.inl hn⟩
  | cons segment rest ih =>
    intro stack hstack n hn
    have hsegment := hslash segment List.mem_cons_self
    have hpushed : ∀ n ∈ push true stack segment, IsProper n := by
      intro n hn
      rcases mem_push hstack hsegment hn with hn | ⟨-, hproper⟩
      · exact hstack n hn
      · exact hproper
    obtain ⟨hproper, hfrom⟩ :=
      ih (fun s hs => hslash s (List.mem_cons_of_mem segment hs)) _ hpushed n hn
    refine ⟨hproper, ?_⟩
    rcases hfrom with hn | hn
    · rcases mem_push hstack hsegment hn with hn | ⟨rfl, -⟩
      · exact Or.inl hn
      · exact Or.inr List.mem_cons_self
    · exact Or.inr (List.mem_cons_of_mem segment hn)

/-- **What remains of an absolute path are proper names**, each of them one of its segments. -/
theorem proper_reduce (p : Bytes) : ∀ n ∈ reduce true (Bytes.splitOn slash p),
    IsProper n ∧ n ∈ Bytes.splitOn slash p := by
  intro n hn
  have hslash : ∀ s ∈ Bytes.splitOn slash p, slash ∉ s := fun s hs => Bytes.not_mem_of_mem_splitOn hs
  obtain ⟨hproper, hfrom⟩ := mem_foldl_push hslash [] nofun n (List.mem_reverse.1 hn)
  exact ⟨hproper, hfrom.resolve_left nofun⟩

/-- Of any path, one more segment brings itself or a step up. -/
theorem mem_push_or_up {rooted : Bool} {segment : Bytes}
    (h : name ∈ push rooted stack segment) : name ∈ stack ∨ name = segment ∨ name = up := by
  unfold push at h
  split at h
  · exact Or.inl h
  split at h
  · cases stack with
    | nil =>
      cases rooted with
      | true => cases h
      | false => exact Or.inr (Or.inr (List.mem_singleton.1 h))
    | cons top rest =>
      dsimp only at h
      split at h
      · exact (List.mem_cons.1 h).elim (fun hup => Or.inr (Or.inr hup)) Or.inl
      · exact Or.inl (List.mem_cons_of_mem top h)
  · exact (List.mem_cons.1 h).elim (fun hsegment => Or.inr (Or.inl hsegment)) Or.inl

theorem mem_reduce {rooted : Bool} {segments : List Bytes}
    (h : name ∈ reduce rooted segments) : name ∈ segments ∨ name = up := by
  have hfold : ∀ (segments stack : List Bytes), name ∈ segments.foldl (push rooted) stack →
      name ∈ stack ∨ name ∈ segments ∨ name = up := by
    intro segments
    induction segments with
    | nil => exact fun stack h => Or.inl h
    | cons segment rest ih =>
      intro stack h
      rcases ih _ h with h | h | h
      · rcases mem_push_or_up h with h | rfl | h
        · exact Or.inl h
        · exact Or.inr (Or.inl List.mem_cons_self)
        · exact Or.inr (Or.inr h)
      · exact Or.inr (Or.inl (List.mem_cons_of_mem segment h))
      · exact Or.inr (Or.inr h)
  exact (hfold segments [] (List.mem_reverse.1 h)).resolve_left nofun

theorem clean_of_isAbsolute (h : isAbsolute p = true) :
    clean p = ofNames (reduce true (Bytes.splitOn slash p)) := by
  simp only [clean, h, if_true, ofNames]

/-- Cleaning does not change where a path starts. -/
theorem isAbsolute_clean (p : Bytes) : isAbsolute (clean p) = isAbsolute p := by
  cases hp : isAbsolute p with
  | true =>
    rw [clean_of_isAbsolute hp]
    simp [isAbsolute, ofNames]
  | false =>
    simp only [clean, hp]
    split
    · next h => cases h
    · split
      · decide
      · rw [isAbsolute, beq_eq_false_iff_ne]
        exact head?_join (isName_reduce false p)

/-- Cleaning brings no bytes but slashes and dots. -/
theorem mem_clean {b : UInt8} (h : b ∈ clean p) : b ∈ p ∨ b = slash ∨ b = 46 := by
  have hrow : ∀ rooted, b ∈ Bytes.join root (reduce rooted (Bytes.splitOn slash p)) →
      b ∈ p ∨ b = slash ∨ b = 46 := by
    intro rooted hb
    rcases Bytes.mem_join hb with hslash | ⟨n, hn, hb⟩
    · exact Or.inr (Or.inl (List.mem_singleton.1 hslash))
    · rcases mem_reduce hn with hn | rfl
      · exact Or.inl (Bytes.mem_of_mem_splitOn hn hb)
      · exact Or.inr (Or.inr (by simpa [up] using hb))
  unfold clean at h
  dsimp only at h
  split at h
  · rcases List.mem_cons.1 h with rfl | h
    · exact Or.inr (Or.inl rfl)
    · exact hrow _ h
  · split at h
    · exact Or.inr (Or.inr (List.mem_singleton.1 h))
    · exact hrow _ h

theorem isAbsolute_ofNames (names : List Bytes) : isAbsolute (ofNames names) = true := by
  simp [isAbsolute, ofNames]

theorem ofNames_ne_nil (names : List Bytes) : ofNames names ≠ [] := List.cons_ne_nil _ _

/-! ## Rows of proper names -/

theorem isName_of_proper (h : ∀ n ∈ names, IsProper n) : ∀ n ∈ names, IsName n :=
  fun n hn => (h n hn).1

theorem foldl_push_proper (h : ∀ n ∈ names, IsProper n) :
    ∀ stack, names.foldl (push true) stack = names.reverse ++ stack := by
  induction names with
  | nil => exact fun _ => rfl
  | cons first rest ih =>
    intro stack
    rw [List.foldl_cons, push_proper (h first List.mem_cons_self),
      ih (fun n hn => h n (List.mem_cons_of_mem first hn))]
    simp

/-- The empty segments around a row of names count for nothing. -/
theorem foldl_push_ofNames (h : ∀ n ∈ names, IsProper n) (stack : List Bytes) :
    (Bytes.splitOn slash (ofNames names)).foldl (push true) stack = names.reverse ++ stack := by
  have hsplit : Bytes.splitOn slash (ofNames names) =
      [] :: Bytes.splitOn slash (Bytes.join root names) := by
    simp [ofNames, Bytes.splitOn]
  rw [hsplit, List.foldl_cons, push_blank (Or.inl rfl)]
  by_cases hne : names = []
  · subst hne
    simp [Bytes.join, Bytes.splitOn, push]
  · have hparts : Bytes.splitOn slash (Bytes.join root names) = names :=
      Bytes.splitOn_join hne fun n hn => (h n hn).1.2
    rw [hparts, foldl_push_proper h]

theorem clean_ofNames (h : ∀ n ∈ names, IsProper n) : clean (ofNames names) = ofNames names := by
  rw [clean_of_isAbsolute (isAbsolute_ofNames names), reduce, foldl_push_ofNames h, List.append_nil,
    List.reverse_reverse]

/-- **The paths that cleaning leaves as they are** are the rows of proper names. -/
theorem isClean_iff : IsClean p ↔ ∃ names, (∀ n ∈ names, IsProper n) ∧ p = ofNames names := by
  constructor
  · rintro ⟨habsolute, hclean⟩
    rw [clean_of_isAbsolute habsolute] at hclean
    exact ⟨_, fun n hn => (proper_reduce p n hn).1, hclean.symm⟩
  · rintro ⟨names, hproper, rfl⟩
    exact ⟨isAbsolute_ofNames names, clean_ofNames hproper⟩

theorem segments_ofNames (h : ∀ n ∈ names, IsProper n) : segments (ofNames names) = names := by
  have hpad := segments_pad (isName_of_proper h) 1 0
  rwa [List.replicate_zero, List.append_nil] at hpad

/-- A clean path is its segments put together again. -/
theorem ofNames_segments (h : IsClean p) : ofNames (segments p) = p := by
  obtain ⟨names, hproper, rfl⟩ := isClean_iff.1 h
  rw [segments_ofNames hproper]

theorem landing_ofNames (hne : names ≠ []) (h : ∀ n ∈ names, IsProper n) :
    landing (ofNames names) = names := by
  have hsegments : segments (ofNames names) = landing (ofNames names) :=
    segments_splitLast hne (isName_of_proper h) (a := 1) rfl (Nat.le_refl 1)
  rw [← hsegments, segments_ofNames h]

theorem base_ofNames (h : ∀ n ∈ init ++ [last], IsProper n) :
    base (ofNames (init ++ [last])) = last := by
  have hne : init ++ [last] ≠ [] := by simp
  have hlast : (splitLast (ofNames (init ++ [last]))).2 = last := by
    have hlanding := landing_ofNames hne h
    rw [landing] at hlanding
    exact List.singleton_inj.1 (List.append_inj' hlanding rfl).2
  -- no slash is at the end, so none is taken off
  have hend : (ofNames (init ++ [last])).reverse.head? ≠ some slash := by
    rw [List.head?_reverse, ofNames, List.getLast?_cons_of_ne_nil (join_ne_nil hne (isName_of_proper h))]
    exact getLast?_join (isName_of_proper h)
  unfold base
  rw [if_neg (ofNames_ne_nil _), Bytes.dropWhile_of_head? hend, List.reverse_reverse]
  dsimp only
  rw [hlast, if_neg (h last (by simp)).1.1]

theorem join_pair {q : Bytes} (hp : p ≠ []) (hq : q ≠ []) : join [p, q] = clean (p ++ slash :: q) := by
  simp [join, hp, hq, Bytes.join, root]

theorem join_single (hp : p ≠ []) : join [p, []] = clean p := by
  simp [join, hp, Bytes.join]

/-- A name put below a row of names. -/
theorem join_ofNames (h : ∀ n ∈ names, IsProper n) (hname : IsProper name) :
    join [ofNames names, name] = ofNames (names ++ [name]) := by
  have habsolute : isAbsolute (ofNames names ++ slash :: name) = true := by
    simp [isAbsolute, ofNames]
  rw [join_pair (ofNames_ne_nil _) hname.1.1, clean_of_isAbsolute habsolute, reduce,
    Bytes.splitOn_append, List.foldl_append, foldl_push_ofNames h,
    Bytes.splitOn_of_not_mem hname.1.2, foldl_push_proper (by simpa using hname)]
  simp

/-- The root put below a row of names. -/
theorem join_ofNames_root (h : ∀ n ∈ names, IsProper n) : join [ofNames names, root] = ofNames names := by
  have habsolute : isAbsolute (ofNames names ++ slash :: root) = true := by
    simp [isAbsolute, ofNames]
  have hblank : ∀ stack : List Bytes, (Bytes.splitOn slash root).foldl (push true) stack = stack := by
    intro stack
    simp [root, Bytes.splitOn, push]
  rw [join_pair (ofNames_ne_nil _) (by decide), clean_of_isAbsolute habsolute, reduce,
    Bytes.splitOn_append, List.foldl_append, foldl_push_ofNames h, hblank]
  simp

/-! ## Going on from a directory -/

/-- A step that leads nowhere is not kept. -/
theorem kept_of_mem_push {rooted : Bool} {segment : Bytes} (h : ∀ n ∈ stack, n ≠ [] ∧ n ≠ here)
    (hname : name ∈ push rooted stack segment) : name ≠ [] ∧ name ≠ here := by
  by_cases hblank : segment = [] ∨ segment = here
  · rw [push_blank hblank] at hname
    exact h name hname
  · rcases mem_push_or_up hname with hname | rfl | rfl
    · exact h name hname
    · exact not_or.1 hblank
    · decide

/-- A step that is worked off before others are taken leads to the same place as one that is taken after
them. -/
theorem foldl_push_step {segment : Bytes} {rest : List Bytes} (h : ∀ n ∈ rest, n ≠ [] ∧ n ≠ here)
    (stack : List Bytes) :
    (push false rest segment).reverse.foldl (push true) stack =
      push true (rest.reverse.foldl (push true) stack) segment := by
  by_cases hblank : segment = [] ∨ segment = here
  · rw [push_blank hblank, push_blank hblank]
  · by_cases hup : segment = up
    · subst hup
      cases rest with
      | nil => rfl
      | cons top more =>
        by_cases htop : top = up
        · rw [push_up, if_pos htop, List.reverse_cons (a := up), List.foldl_append]
          rfl
        · -- the name on top is gone, and so it is when it was passed before
          obtain ⟨hne, hhere⟩ := h top List.mem_cons_self
          rw [push_up, if_neg htop, List.reverse_cons, List.foldl_append, List.foldl_cons,
            List.foldl_nil, push_name (not_or.2 ⟨hne, hhere⟩) htop, push_up, if_neg htop]
    · rw [push_name hblank hup, List.reverse_cons, List.foldl_append]
      rfl

/-- **Working off a relative path first** does not change where it leads from a directory. -/
theorem foldl_push_reduce (parts stack : List Bytes) :
    (reduce false parts).foldl (push true) stack = parts.foldl (push true) stack := by
  have hfold : ∀ (parts rest : List Bytes), (∀ n ∈ rest, n ≠ [] ∧ n ≠ here) →
      (parts.foldl (push false) rest).reverse.foldl (push true) stack =
        parts.foldl (push true) (rest.reverse.foldl (push true) stack) := by
    intro parts
    induction parts with
    | nil => exact fun _ _ => rfl
    | cons part parts ih =>
      intro rest hrest
      rw [List.foldl_cons, List.foldl_cons, ih _ fun n hn => kept_of_mem_push hrest hn,
        foldl_push_step hrest]
  exact hfold parts [] nofun

theorem foldl_push_clean (h : isAbsolute p = false) (stack : List Bytes) :
    (Bytes.splitOn slash (clean p)).foldl (push true) stack =
      (Bytes.splitOn slash p).foldl (push true) stack := by
  rw [← foldl_push_reduce (Bytes.splitOn slash p)]
  simp only [clean, h, Bool.false_eq_true, if_false]
  by_cases hnil : reduce false (Bytes.splitOn slash p) = []
  · rw [hnil]
    rfl
  · rw [if_neg (join_ne_nil hnil (isName_reduce false p)), root,
      Bytes.splitOn_join hnil fun n hn => (isName_reduce false p n hn).2]

/-! ## Paths below another one -/

theorem ofNames_inj (hinit : ∀ n ∈ init, IsProper n) (h : ∀ n ∈ names, IsProper n) :
    ofNames init = ofNames names ↔ init = names := by
  constructor
  · intro heq
    rw [← segments_ofNames hinit, ← segments_ofNames h, heq]
  · exact congrArg ofNames

theorem ofNames_append {rest : List Bytes} (hinit : init ≠ []) (hrest : rest ≠ []) :
    ofNames (init ++ rest) = ofNames init ++ ofNames rest := by
  obtain ⟨first, others, rfl⟩ := List.exists_cons_of_ne_nil hinit
  obtain ⟨next, more, rfl⟩ := List.exists_cons_of_ne_nil hrest
  simp only [ofNames, List.cons_append, Bytes.join_cons, List.flatMap_append, List.flatMap_cons]
  simp [root]

/-- **The names of a path begin with those of another one exactly if its text does**, up to a slash: a
name that only begins with another name is not mistaken for it. -/
theorem startsWith_ofNames (hne : init ≠ []) (hinit : ∀ n ∈ init, IsProper n)
    (h : ∀ n ∈ names, IsProper n) :
    Bytes.startsWith (ofNames init ++ root) (ofNames names) = true ↔ init <+: names ∧ names ≠ init := by
  rw [Bytes.startsWith, List.isPrefixOf_iff_prefix]
  constructor
  · rintro ⟨tail, htail⟩
    have hjoin : Bytes.join [slash] names = Bytes.join [slash] init ++ slash :: tail := by
      simpa [ofNames, root] using htail.symm
    have hnames : names ≠ [] := by
      rintro rfl
      simp [Bytes.join] at hjoin
    -- cut at its slashes, the longer path gives the shorter one and some more
    have hparts := congrArg (Bytes.splitOn slash) hjoin
    rw [Bytes.splitOn_join hnames (fun n hn => (h n hn).1.2), Bytes.splitOn_append,
      Bytes.splitOn_join hne (fun n hn => (hinit n hn).1.2)] at hparts
    refine ⟨⟨_, hparts.symm⟩, fun heq => ?_⟩
    rw [heq] at hparts
    exact Bytes.splitOn_ne_nil slash tail (List.self_eq_append_right.1 hparts)
  · rintro ⟨⟨rest, rfl⟩, hlonger⟩
    have hrest : rest ≠ [] := fun hnil => hlonger (by rw [hnil, List.append_nil])
    rw [ofNames_append hne hrest]
    refine ⟨Bytes.join root rest, ?_⟩
    simp [ofNames, root]

/-! ## The last segment of a path -/

/-- The text after the last slash of a path, if it has one. -/
def EndsIn (name p : Bytes) : Prop := ∃ init, Bytes.splitOn slash p = init ++ [name]

theorem endsIn_append (p : Bytes) {name : Bytes} (h : slash ∉ name) :
    EndsIn name (p ++ slash :: name) := by
  refine ⟨Bytes.splitOn slash p, ?_⟩
  rw [Bytes.splitOn_append, Bytes.splitOn_of_not_mem h]

theorem EndsIn.ne_nil (h : EndsIn name p) (hname : IsProper name) : p ≠ [] := by
  rintro rfl
  obtain ⟨init, hinit⟩ := h
  have hmem : name ∈ Bytes.splitOn slash [] := by
    rw [hinit]
    exact List.mem_append_right _ List.mem_cons_self
  exact hname.1.1 (List.mem_singleton.1 hmem)

theorem EndsIn.getLast? (h : EndsIn name p) (hname : IsName name) : p.getLast? ≠ some slash := by
  obtain ⟨init, hinit⟩ := h
  have hp : p = (if init = [] then [] else Bytes.join [slash] init ++ [slash]) ++ name := by
    rw [← Bytes.join_concat, ← hinit, Bytes.join_splitOn]
  rw [hp, List.getLast?_append_of_ne_nil _ hname.1]
  intro hlast
  exact hname.2 (List.mem_of_getLast? hlast)

/-- A proper name at the end is left there. -/
theorem reduce_concat (rooted : Bool) (parts : List Bytes) (hname : IsProper name) :
    reduce rooted (parts ++ [name]) = reduce rooted parts ++ [name] := by
  simp only [reduce, List.foldl_append, List.foldl_cons, List.foldl_nil, push_proper hname,
    List.reverse_cons]

/-- What is between the slashes of a path that was cleaned, if a proper name is at its end. -/
theorem splitOn_clean {parts : List Bytes} (hparts : Bytes.splitOn slash p = parts ++ [name])
    (hname : IsProper name) :
    Bytes.splitOn slash (clean p) =
      (if isAbsolute p then [[]] else []) ++ (reduce (isAbsolute p) parts ++ [name]) := by
  have hkept : reduce (isAbsolute p) (Bytes.splitOn slash p) = reduce (isAbsolute p) parts ++ [name] := by
    rw [hparts, reduce_concat _ parts hname]
  have hne : reduce (isAbsolute p) (Bytes.splitOn slash p) ≠ [] := by
    rw [hkept]
    exact List.append_ne_nil_of_right_ne_nil _ (List.cons_ne_nil _ _)
  have hrow : Bytes.splitOn slash (Bytes.join root (reduce (isAbsolute p) (Bytes.splitOn slash p))) =
      reduce (isAbsolute p) parts ++ [name] :=
    (Bytes.splitOn_join hne fun n hn => (isName_reduce _ p n hn).2).trans hkept
  unfold clean
  dsimp only
  split
  · rw [Bytes.splitOn, if_pos rfl, hrow]
    rfl
  · rw [if_neg (join_ne_nil hne (isName_reduce _ p)), hrow]
    rfl

/-- **Cleaning keeps a proper name at the end of a path.** -/
theorem EndsIn.clean (h : EndsIn name p) (hname : IsProper name) : EndsIn name (clean p) := by
  obtain ⟨parts, hparts⟩ := h
  exact ⟨_, (splitOn_clean hparts hname).trans (List.append_assoc _ _ _).symm⟩

/-! ## Paths that can be written into a script -/

theorem isPathText_ofNames (names : List Bytes) : isPathText (ofNames names) = names.all isPathText := by
  have happend : isPathText ([] ++ slash :: Bytes.join root names) =
      (isPathText [] && isPathText (Bytes.join root names)) :=
    isPathText_append (by decide) (by decide) [] _
  have hempty : isPathText [] = true := by decide
  rw [List.nil_append, hempty, Bool.true_and] at happend
  rw [ofNames, happend, root, isPathText_join (by decide) (by decide)]

/-- **A path that can be written can be written when it is cleaned.** What cleaning keeps was there
before, or leads up. -/
theorem isPathText_clean (h : isPathText p = true) : isPathText (clean p) = true := by
  have hparts : ∀ rooted, (reduce rooted (Bytes.splitOn slash p)).all isPathText = true := by
    intro rooted
    rw [← isPathText_splitOn (by decide : slash < 0x80) (by decide), List.all_eq_true] at h
    rw [List.all_eq_true]
    intro n hn
    rcases mem_reduce hn with hn | rfl
    · exact h n hn
    · decide
  cases habsolute : isAbsolute p with
  | true => rw [clean_of_isAbsolute habsolute, isPathText_ofNames, hparts]
  | false =>
    simp only [clean, habsolute, Bool.false_eq_true, if_false]
    split
    · decide
    · rw [root, isPathText_join (by decide) (by decide), hparts]

end BuildScript.Path
