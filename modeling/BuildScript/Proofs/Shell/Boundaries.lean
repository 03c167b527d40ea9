import BuildScript.Proofs.Shell.Skeleton

/-!
# Where the parts of a line end

Read from the left, a part of a line shows what it is and where it ends: a word at the first blank or
line feed outside quotes, a condition at its own brackets, an indented text at the first line that is
not indented. In each case equal texts, with something behind them, have equal parts and the same
behind them.

* `escape_append_inj`: escaped words.
* `Written`, `written_append_inj`: **conditions that run no command.**
* `flagText_append_inj`: the flags of an action.
* `shift_append_inj`: indented text.
-/

namespace BuildScript.Shell

/-! ## Words -/

theorem escape_injective {u v : Bytes} (h : Word.escape u = Word.escape v) : u = v := by
  have hread := reads_escape_tight u Reader.start rfl
  rw [h, reads_escape_tight v Reader.start rfl] at hread
  simpa [Reader.extend, Reader.start] using hread.symm

/-- What can follow a word: nothing, a blank or a line feed. -/
def EndsWord : Bytes → Prop
  | [] => True
  | b :: _ => b = 32 ∨ b = 10

theorem activeBytes_escapePieces_append {pieces : List Utf8.Piece}
    (h : ∀ piece ∈ pieces, piece.WellFormed) (rest : Bytes) :
    ∃ plain : Bytes, activeBytes .bare (pieces.flatMap Word.escapePiece ++ rest) =
      plain ++ activeBytes .bare rest := by
  induction pieces with
  | nil => exact ⟨[], rfl⟩
  | cons piece pieces ih =>
    obtain ⟨first, -, hfirst⟩ := activeBytes_escapePiece (h piece List.mem_cons_self)
      (pieces.flatMap Word.escapePiece ++ rest)
    obtain ⟨next, hnext⟩ := ih fun x hx => h x (List.mem_cons_of_mem piece hx)
    refine ⟨first ++ next, ?_⟩
    rw [List.flatMap_cons, List.append_assoc, hfirst, hnext, List.append_assoc]

/-- After an escaped text the shell is outside quotes again. -/
theorem activeBytes_escape_append (s rest : Bytes) :
    ∃ plain : Bytes, activeBytes .bare (Word.escape s ++ rest) = plain ++ activeBytes .bare rest := by
  unfold Word.escape
  split
  · exact ⟨[], by simp [activeBytes]⟩
  · exact activeBytes_escapePieces_append (fun piece hp => Utf8.wellFormed_pieces hp) rest

/-- An escaped text does not go on, as an escaped text, after a blank or a line feed. -/
theorem escape_ne_escape_append {u v rest : Bytes} {b : UInt8} (hb : b = 32 ∨ b = 10) :
    Word.escape v ≠ Word.escape u ++ b :: rest := by
  intro h
  obtain ⟨plain, hactive⟩ := activeBytes_escape_append u (b :: rest)
  have hall := activeBytes_escape v
  rw [h, hactive, List.all_append, Bool.and_eq_true] at hall
  rcases hb with rfl | rfl
  · simp [activeBytes, show isPlain 32 = false by decide] at hall
  · simp [activeBytes, show isPlain 10 = false by decide] at hall

/-- **A word ends at the first blank or line feed outside quotes.** -/
theorem escape_append_inj {u v r r' : Bytes} (hr : EndsWord r) (hr' : EndsWord r')
    (h : Word.escape u ++ r = Word.escape v ++ r') : u = v ∧ r = r' := by
  rcases List.append_eq_append_iff.1 h with ⟨d, hv, hd⟩ | ⟨d, hu, hd⟩
  · cases d with
    | nil =>
      rw [List.append_nil] at hv
      exact ⟨(escape_injective hv).symm, hd⟩
    | cons b d =>
      rw [hd] at hr
      exact absurd hv (escape_ne_escape_append hr)
  · cases d with
    | nil =>
      rw [List.append_nil] at hu
      exact ⟨escape_injective hu, hd.symm⟩
    | cons b d =>
      rw [hd] at hr'
      exact absurd hu (escape_ne_escape_append hr')

/-! ## Conditions -/

/-- A test of a path. -/
def testText (flag path : Bytes) : Bytes :=
  bytes "[[ " ++ flag ++ bytes " " ++ Word.escape path ++ bytes " ]]"

/-- How the conditions that run no command are written. -/
inductive Written : Condition → Bytes → Prop where
  | present (path : Bytes) : Written (.present path) (testText (bytes "-e") path)
  | isDirectory (path : Bytes) : Written (.isDirectory path) (testText (bytes "-d") path)
  | isFile (path : Bytes) : Written (.isFile path) (testText (bytes "-f") path)
  | and {left right : Condition} {l r : Bytes} (hl : Written left l) (hr : Written right r) :
      Written (.and left right) (bytes "\x7b " ++ l ++ bytes " && " ++ r ++ bytes "; \x7d")
  | or {left right : Condition} {l r : Bytes} (hl : Written left l) (hr : Written right r) :
      Written (.or left right) (bytes "\x7b " ++ l ++ bytes " || " ++ r ++ bytes "; \x7d")
  | not {inner : Condition} {text : Bytes} (h : Written inner text) :
      Written (.not inner) (bytes "\x7b ! " ++ text ++ bytes "; \x7d")

theorem test_eq {flag path text : Bytes} (h : test flag path = .ok text) :
    text = testText flag path := by
  obtain ⟨word, hword, htext⟩ := bind_ok h
  unfold pathWord at hword
  split at hword
  · rw [← Except.ok.inj htext, ← Except.ok.inj hword]
    rfl
  · cases hword

theorem written_of_render {condition : Condition} {text : Bytes} (hc : condition.runsNothing = true)
    (h : condition.render = .ok text) : Written condition text := by
  induction condition generalizing text with
  | missing => cases h
  | reference inner => cases h
  | succeeds command => cases hc
  | present path =>
    rw [test_eq h]
    exact .present path
  | isDirectory path =>
    rw [test_eq h]
    exact .isDirectory path
  | isFile path =>
    rw [test_eq h]
    exact .isFile path
  | and left right ihl ihr =>
    simp only [Condition.runsNothing, Bool.and_eq_true] at hc
    obtain ⟨l, hl, h⟩ := bind_ok h
    obtain ⟨r, hr, h⟩ := bind_ok h
    rw [← Except.ok.inj h]
    exact .and (ihl hc.1 hl) (ihr hc.2 hr)
  | or left right ihl ihr =>
    simp only [Condition.runsNothing, Bool.and_eq_true] at hc
    obtain ⟨l, hl, h⟩ := bind_ok h
    obtain ⟨r, hr, h⟩ := bind_ok h
    rw [← Except.ok.inj h]
    exact .or (ihl hc.1 hl) (ihr hc.2 hr)
  | not inner ih =>
    obtain ⟨t, ht, h⟩ := bind_ok h
    rw [← Except.ok.inj h]
    exact .not (ih hc ht)

/-- What the first bytes of a condition show of it. -/
inductive Opening where
  | present
  | isDirectory
  | isFile
  | negation
  | group

/-- How a condition opens. -/
def opening : Condition → Opening
  | .present _ => .present
  | .isDirectory _ => .isDirectory
  | .isFile _ => .isFile
  | .not _ => .negation
  | _ => .group

/-- How the condition at the start of a text opens. -/
def openingOf (text : Bytes) : Opening :=
  if Bytes.startsWith (bytes "[[ -e ") text then .present
  else if Bytes.startsWith (bytes "[[ -d ") text then .isDirectory
  else if Bytes.startsWith (bytes "[[ -f ") text then .isFile
  else if Bytes.startsWith (bytes "\x7b ! ") text then .negation
  else .group

/-- A condition begins with a bracket, so one in a group cannot be taken for a negation. -/
theorem openingOf_group {condition : Condition} {text : Bytes} (h : Written condition text)
    (rest : Bytes) : openingOf (bytes "\x7b " ++ (text ++ rest)) = .group := by
  cases h <;> rfl

theorem openingOf_written {condition : Condition} {text : Bytes} (h : Written condition text)
    (rest : Bytes) : openingOf (text ++ rest) = opening condition := by
  cases h with
  | present path => rfl
  | isDirectory path => rfl
  | isFile path => rfl
  | and hl hr =>
    simp only [List.append_assoc]
    exact openingOf_group hl _
  | or hl hr =>
    simp only [List.append_assoc]
    exact openingOf_group hl _
  | not h => rfl

theorem opening_eq {c d : Condition} {a b r r' : Bytes} (hc : Written c a) (hd : Written d b)
    (h : a ++ r = b ++ r') : opening c = opening d := by
  rw [← openingOf_written hc r, h, openingOf_written hd r']

/-- Texts that begin differently differ. -/
theorem append_ne {p q : Bytes} (h : (p.isPrefixOf q || q.isPrefixOf p) = false) (x y : Bytes) :
    p ++ x ≠ q ++ y := by
  intro heq
  rw [Bool.or_eq_false_iff] at h
  rcases List.append_eq_append_iff.1 heq with ⟨d, hd, -⟩ | ⟨d, hd, -⟩
  · rw [hd, List.isPrefixOf_iff_prefix.2 (List.prefix_append p d)] at h
    exact absurd h.1 (by decide)
  · rw [hd, List.isPrefixOf_iff_prefix.2 (List.prefix_append q d)] at h
    exact absurd h.2 (by decide)

theorem testText_append_inj {flag path path' r r' : Bytes}
    (h : testText flag path ++ r = testText flag path' ++ r') : path = path' ∧ r = r' := by
  simp only [testText, List.append_assoc, List.append_cancel_left_eq] at h
  have hend : ∀ rest, EndsWord (bytes " ]]" ++ rest) := fun rest => Or.inl rfl
  obtain ⟨hpath, hrest⟩ := escape_append_inj (hend r) (hend r') h
  exact ⟨hpath, List.append_cancel_left hrest⟩

/-- **A condition ends at its own brackets.** -/
theorem written_append_inj {c : Condition} {a : Bytes} (hc : Written c a) :
    ∀ {d : Condition} {b r r' : Bytes}, Written d b → a ++ r = b ++ r' → c = d ∧ r = r' := by
  induction hc with
  | present path =>
    intro d b r r' hd h
    have hopen := opening_eq (.present path) hd h
    cases hd with
    | present path' =>
      obtain ⟨rfl, hrest⟩ := testText_append_inj h
      exact ⟨rfl, hrest⟩
    | _ => simp [opening] at hopen
  | isDirectory path =>
    intro d b r r' hd h
    have hopen := opening_eq (.isDirectory path) hd h
    cases hd with
    | isDirectory path' =>
      obtain ⟨rfl, hrest⟩ := testText_append_inj h
      exact ⟨rfl, hrest⟩
    | _ => simp [opening] at hopen
  | isFile path =>
    intro d b r r' hd h
    have hopen := opening_eq (.isFile path) hd h
    cases hd with
    | isFile path' =>
      obtain ⟨rfl, hrest⟩ := testText_append_inj h
      exact ⟨rfl, hrest⟩
    | _ => simp [opening] at hopen
  | not hinner ih =>
    intro d b r r' hd h
    have hopen := opening_eq (.not hinner) hd h
    cases hd with
    | not hinner' =>
      simp only [List.append_assoc, List.append_cancel_left_eq] at h
      obtain ⟨rfl, hrest⟩ := ih hinner' h
      exact ⟨rfl, List.append_cancel_left hrest⟩
    | _ => simp [opening] at hopen
  | and hl hr ihl ihr =>
    intro d b r r' hd h
    have hopen := opening_eq (.and hl hr) hd h
    cases hd with
    | and hl' hr' =>
      simp only [List.append_assoc, List.append_cancel_left_eq] at h
      obtain ⟨rfl, h⟩ := ihl hl' h
      obtain ⟨rfl, hrest⟩ := ihr hr' (List.append_cancel_left h)
      exact ⟨rfl, List.append_cancel_left hrest⟩
    | or hl' hr' =>
      simp only [List.append_assoc, List.append_cancel_left_eq] at h
      exact absurd (ihl hl' h).2 (append_ne (by decide) _ _)
    | _ => simp [opening] at hopen
  | or hl hr ihl ihr =>
    intro d b r r' hd h
    have hopen := opening_eq (.or hl hr) hd h
    cases hd with
    | or hl' hr' =>
      simp only [List.append_assoc, List.append_cancel_left_eq] at h
      obtain ⟨rfl, h⟩ := ihl hl' h
      obtain ⟨rfl, hrest⟩ := ihr hr' (List.append_cancel_left h)
      exact ⟨rfl, List.append_cancel_left hrest⟩
    | and hl' hr' =>
      simp only [List.append_assoc, List.append_cancel_left_eq] at h
      exact absurd (ihl hl' h).2 (append_ne (by decide) _ _)
    | _ => simp [opening] at hopen

/-! ## Flags -/

/-- What can follow an item: nothing, or a line feed. -/
def EndsLine : Bytes → Prop
  | [] => True
  | b :: _ => b = 10

theorem EndsLine.cases {r : Bytes} (h : EndsLine r) : r = [] ∨ ∃ rest, r = 10 :: rest := by
  cases r with
  | nil => exact Or.inl rfl
  | cons b rest => exact Or.inr ⟨rest, congrArg (· :: rest) h⟩

/-- A flag that may be missing, before texts that do not begin with it. -/
theorem flagIf_append_inj {flag x x' : Bytes} {given given' : Bool}
    (hx : Bytes.startsWith flag x = false) (hx' : Bytes.startsWith flag x' = false)
    (h : flagIf given flag ++ x = flagIf given' flag ++ x') : given = given' ∧ x = x' := by
  have hstart : ∀ y, Bytes.startsWith flag (flag ++ y) = true := fun y =>
    List.isPrefixOf_iff_prefix.2 (List.prefix_append flag y)
  cases given <;> cases given'
  · exact ⟨rfl, h⟩
  · have hyes : x = flag ++ x' := h
    rw [hyes, hstart] at hx
    cases hx
  · have hyes : flag ++ x = x' := h
    rw [← hyes, hstart] at hx'
    cases hx'
  · exact ⟨rfl, List.append_cancel_left h⟩

/-- The flag with a text to display, before texts that end its word and do not begin with it. -/
theorem displayText_append_inj {d d' : Option Bytes} {x x' : Bytes} (hword : EndsWord x)
    (hword' : EndsWord x') (hx : Bytes.startsWith (bytes " --display=") x = false)
    (hx' : Bytes.startsWith (bytes " --display=") x' = false)
    (h : displayText d ++ x = displayText d' ++ x') : d = d' ∧ x = x' := by
  have hstart : ∀ shown y, Bytes.startsWith (bytes " --display=")
      (displayText (some shown) ++ y) = true := fun shown y => rfl
  cases d with
  | none =>
    cases d' with
    | none => exact ⟨rfl, h⟩
    | some shown =>
      have hyes : x = displayText (some shown) ++ x' := h
      rw [hyes, hstart] at hx
      cases hx
  | some shown =>
    cases d' with
    | none =>
      have hyes : displayText (some shown) ++ x = x' := h
      rw [← hyes, hstart] at hx'
      cases hx'
    | some shown' =>
      simp only [displayText, List.append_assoc, List.append_cancel_left_eq] at h
      obtain ⟨rfl, hrest⟩ := escape_append_inj hword hword' h
      exact ⟨rfl, hrest⟩

/-- What follows the text to display. -/
theorem assertText_ends (assert : Bool) {r : Bytes} (hr : EndsLine r) :
    EndsWord (flagIf assert (bytes " --assert") ++ r) ∧
      Bytes.startsWith (bytes " --display=") (flagIf assert (bytes " --assert") ++ r) = false := by
  obtain rfl | ⟨rest, rfl⟩ := hr.cases
  · cases assert
    · exact ⟨trivial, rfl⟩
    · exact ⟨Or.inl rfl, rfl⟩
  · cases assert
    · exact ⟨Or.inr rfl, rfl⟩
    · exact ⟨Or.inl rfl, rfl⟩

/-- No flag can be taken for the first one. -/
theorem echoText_ends (display? : Option Bytes) (assert : Bool) {r : Bytes} (hr : EndsLine r) :
    Bytes.startsWith (bytes " --echo")
      (displayText display? ++ (flagIf assert (bytes " --assert") ++ r)) = false := by
  obtain rfl | ⟨rest, rfl⟩ := hr.cases <;> cases display? <;> cases assert <;> rfl

/-- **The flags of an action can be told apart.** -/
theorem flagText_append_inj {e e' a a' : Bool} {d d' : Option Bytes} {r r' : Bytes}
    (hr : EndsLine r) (hr' : EndsLine r')
    (h : flagText e d a ++ r = flagText e' d' a' ++ r') : e = e' ∧ d = d' ∧ a = a' ∧ r = r' := by
  have hassert : ∀ {r : Bytes}, EndsLine r → Bytes.startsWith (bytes " --assert") r = false := by
    intro r hr
    obtain rfl | ⟨rest, rfl⟩ := hr.cases <;> rfl
  simp only [flagText, List.append_assoc] at h
  obtain ⟨he, h₁⟩ := flagIf_append_inj (echoText_ends d a hr) (echoText_ends d' a' hr') h
  obtain ⟨hword, hdisplay⟩ := assertText_ends a hr
  obtain ⟨hword', hdisplay'⟩ := assertText_ends a' hr'
  obtain ⟨hd, h₂⟩ := displayText_append_inj hword hword' hdisplay hdisplay' h₁
  obtain ⟨ha, hrest⟩ := flagIf_append_inj (hassert hr) (hassert hr') h₂
  exact ⟨he, hd, ha, hrest⟩

/-- The word before the flags ends at them. -/
theorem flagText_endsWord {e a : Bool} {d : Option Bytes} {r : Bytes} (hr : EndsLine r) :
    EndsWord (flagText e d a ++ r) := by
  cases e
  · cases d
    · exact (assertText_ends a hr).1
    · exact Or.inl rfl
  · exact Or.inl rfl

/-! ## Indented text -/

/-- What can follow an indented text: nothing, or a line that is not indented. -/
def Stops : Bytes → Prop
  | [] => True
  | b :: rest => b = 10 ∧ rest.take 2 ≠ [32, 32]

theorem Stops.endsLine {r : Bytes} (h : Stops r) : EndsLine r := by
  cases r with
  | nil => trivial
  | cons b rest => exact h.1

/-- A text that stops an indented one does not begin like one. -/
theorem not_stops_shift (b : UInt8) (s r : Bytes) : ¬ Stops (shift (b :: s) ++ r) := by
  intro h
  rw [shift_cons] at h
  by_cases hb : b = 10
  · subst hb
    exact h.2 rfl
  · rw [shift_byte hb] at h
    exact hb h.1

/-- **An indented text ends at the first line that is not indented.** -/
theorem shift_append_inj {a b r r' : Bytes} (hr : Stops r) (hr' : Stops r')
    (h : shift a ++ r = shift b ++ r') : a = b ∧ r = r' := by
  induction a generalizing b with
  | nil =>
    cases b with
    | nil => exact ⟨rfl, h⟩
    | cons y b =>
      have hr : Stops (shift (y :: b) ++ r') := h ▸ hr
      exact absurd hr (not_stops_shift y b r')
  | cons x a ih =>
    cases b with
    | nil =>
      have hr' : Stops (shift (x :: a) ++ r) := h ▸ hr'
      exact absurd hr' (not_stops_shift x a r)
    | cons y b =>
      rw [shift_cons x, shift_cons y, List.append_assoc, List.append_assoc] at h
      have hxy : x = y := by
        by_cases hx : x = 10 <;> by_cases hy : y = 10 <;>
          simp_all [shift_lineEnd, shift_byte]
      subst hxy
      obtain ⟨rfl, hrest⟩ := ih (List.append_cancel_left h)
      exact ⟨rfl, hrest⟩

end BuildScript.Shell
