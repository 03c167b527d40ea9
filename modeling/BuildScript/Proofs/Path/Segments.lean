import BuildScript.Path
import BuildScript.Proofs.Text.Parts

/-!
# Clean paths and their segments

An operation looks at a path in two ways: as the segments from the root down, or as a directory and a
name in it. For a clean path other than the root the two agree.

* `IsName`: what a segment of a clean path looks like.
* `landing`: the place of a name in a directory.
* `segments_pad`: **the segments of a path are found again**, whatever slashes are around it.
* `segments_clean`: **the segments of a clean path** are those of its directory, and the name.
-/

namespace BuildScript.Path

variable {names : List Bytes}

/-- A name of a file or a directory: some bytes, and no slash. -/
def IsName (name : Bytes) : Prop := name ≠ [] ∧ slash ∉ name

/-- The place that a path means as a name in a directory. For a clean path other than the root these
are its segments. -/
def landing (p : Bytes) : List Bytes := segments (splitLast p).1 ++ [(splitLast p).2]

/-! ## Segments found again -/

theorem head?_join (h : ∀ name ∈ names, IsName name) : (Bytes.join root names).head? ≠ some slash := by
  cases names with
  | nil => exact nofun
  | cons first rest =>
    obtain ⟨hne, hslash⟩ := h first List.mem_cons_self
    obtain ⟨b, tail, rfl⟩ := List.exists_cons_of_ne_nil hne
    rw [Bytes.join_cons]
    intro hb
    rw [List.cons_append, List.head?_cons, Option.some.injEq] at hb
    exact hslash (hb ▸ List.mem_cons_self)

theorem getLast?_join (h : ∀ name ∈ names, IsName name) :
    (Bytes.join root names).getLast? ≠ some slash := by
  rcases List.eq_nil_or_concat names with rfl | ⟨init, last, rfl⟩
  · exact nofun
  · obtain ⟨hne, hslash⟩ := h last (by simp)
    rw [List.concat_eq_append, Bytes.join_concat, List.getLast?_append_of_ne_nil _ hne]
    intro hb
    exact hslash (List.mem_of_getLast? hb)

theorem join_ne_nil (hne : names ≠ []) (h : ∀ name ∈ names, IsName name) :
    Bytes.join root names ≠ [] := by
  obtain ⟨first, rest, rfl⟩ := List.exists_cons_of_ne_nil hne
  have hfirst := (h first List.mem_cons_self).1
  rw [Bytes.join_cons]
  simp [hfirst]

/-- **The segments of a path are found again**, whatever slashes are around it. -/
theorem segments_pad (h : ∀ name ∈ names, IsName name) (a b : Nat) :
    segments (List.replicate a slash ++ Bytes.join root names ++ List.replicate b slash) = names := by
  unfold segments
  rw [Bytes.trim_pad (head?_join h) (getLast?_join h)]
  by_cases hne : names = []
  · subst hne
    rfl
  · rw [if_neg (join_ne_nil hne h)]
    exact Bytes.splitOn_join hne fun name hname => (h name hname).2

/-! ## The last segment -/

theorem splitLast_append {above name : Bytes} (habove : above = [] ∨ above.getLast? = some slash)
    (hname : slash ∉ name) : splitLast (above ++ name) = (above, name) := by
  have hall : ∀ b ∈ name.reverse, (b != slash) = true := by
    intro b hb
    rw [bne_iff_ne]
    rintro rfl
    exact hname (List.mem_reverse.1 hb)
  have hstop : above.reverse.takeWhile (· != slash) = [] := by
    rcases habove with rfl | hlast
    · rfl
    · rw [← List.head?_reverse] at hlast
      obtain ⟨rest, hrest⟩ := List.head?_eq_some_iff.1 hlast
      rw [hrest]
      simp
  have htake : ((above ++ name).reverse.takeWhile (· != slash)).reverse = name := by
    rw [List.reverse_append, List.takeWhile_append_of_pos hall, hstop, List.append_nil,
      List.reverse_reverse]
  simp only [splitLast, htake]
  simp

/-- A path of names is a directory and the last name. -/
theorem segments_splitLast (hne : names ≠ []) (h : ∀ name ∈ names, IsName name) {p : Bytes} {a : Nat}
    (hp : p = List.replicate a slash ++ Bytes.join root names) (ha : a ≤ 1) :
    segments p = landing p := by
  unfold landing
  have hsegments := segments_pad h a 0
  rw [List.replicate_zero, List.append_nil, ← hp] at hsegments
  rcases List.eq_nil_or_concat names with rfl | ⟨init, last, rfl⟩
  · exact absurd rfl hne
  rw [List.concat_eq_append] at h hp hsegments
  have hinit : ∀ name ∈ init, IsName name := fun name hname => h name (List.mem_append_left _ hname)
  have hlast := (h last (by simp)).2
  rw [Bytes.join_concat, ← List.append_assoc] at hp
  by_cases hempty : init = []
  · -- the last name is the only one, so what is above is the root or nothing
    subst hempty
    rw [if_pos rfl, List.append_nil] at hp
    have habove : List.replicate a slash = [] ∨ (List.replicate a slash).getLast? = some slash := by
      obtain rfl | rfl : a = 0 ∨ a = 1 := by omega
      · exact Or.inl rfl
      · exact Or.inr rfl
    have hpad := segments_pad hinit a 0
    rw [hsegments, hp, splitLast_append habove hlast]
    simpa [Bytes.join] using hpad.symm
  · rw [if_neg hempty, ← List.append_assoc] at hp
    have hpad := segments_pad hinit a 1
    rw [hsegments, hp, splitLast_append (Or.inr (by simp [root])) hlast]
    exact congrArg (· ++ [last]) hpad.symm

/-! ## Clean paths -/

theorem isName_push {rooted : Bool} {stack : List Bytes} {segment : Bytes} (hsegment : slash ∉ segment)
    (h : ∀ name ∈ stack, IsName name) : ∀ name ∈ push rooted stack segment, IsName name := by
  have hup : IsName up := ⟨by decide, by decide⟩
  unfold push
  split
  · exact h
  rename_i hkept
  simp only [Bool.or_eq_true, decide_eq_true_eq, not_or] at hkept
  split
  · split
    · split
      · exact nofun
      · simpa using hup
    · split
      · intro name hname
        rcases List.mem_cons.1 hname with rfl | hname
        · exact hup
        · exact h name hname
      · exact fun name hname => h name (List.mem_cons_of_mem _ hname)
  · intro name hname
    rcases List.mem_cons.1 hname with rfl | hname
    · exact ⟨hkept.1, hsegment⟩
    · exact h name hname

theorem isName_foldl_push {rooted : Bool} {segments : List Bytes}
    (hsegments : ∀ s ∈ segments, slash ∉ s) : ∀ stack : List Bytes, (∀ name ∈ stack, IsName name) →
      ∀ name ∈ segments.foldl (push rooted) stack, IsName name := by
  induction segments with
  | nil => exact fun _ h => h
  | cons segment rest ih =>
    intro stack h
    exact ih (fun s hs => hsegments s (List.mem_cons_of_mem segment hs)) _
      (isName_push (hsegments segment List.mem_cons_self) h)

theorem isName_reduce (rooted : Bool) (p : Bytes) :
    ∀ name ∈ reduce rooted (Bytes.splitOn slash p), IsName name := by
  intro name hname
  exact isName_foldl_push (fun s hs => Bytes.not_mem_of_mem_splitOn hs) [] nofun name
    (List.mem_reverse.1 hname)

/-- A clean path is a row of names, below the root or not; a row without names is the root. -/
theorem clean_eq (p : Bytes) : ∃ (a : Nat) (names : List Bytes), a ≤ 1 ∧
    (∀ name ∈ names, IsName name) ∧ clean p = List.replicate a slash ++ Bytes.join root names ∧
    (names = [] → clean p = root) := by
  have hkept := isName_reduce (isAbsolute p) p
  unfold clean
  dsimp only
  split
  · refine ⟨1, _, Nat.le_refl 1, hkept, rfl, fun hnil => ?_⟩
    rw [hnil]
    rfl
  · split
    · have hhere : IsName here := ⟨by decide, by decide⟩
      exact ⟨0, [here], Nat.zero_le 1, by simpa using hhere, rfl, nofun⟩
    · rename_i hne
      refine ⟨0, _, Nat.zero_le 1, hkept, rfl, fun hnil => absurd ?_ hne⟩
      rw [hnil]
      rfl

/-- **The segments of a clean path** are those of its directory, and the name. -/
theorem segments_clean {p : Bytes} (h : clean p ≠ root) : segments (clean p) = landing (clean p) := by
  obtain ⟨a, names, ha, hnames, hclean, hroot⟩ := clean_eq p
  exact segments_splitLast (fun hnil => h (hroot hnil)) hnames hclean ha

end BuildScript.Path
