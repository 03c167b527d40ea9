import BuildScript.Proofs.Shell.Readability

/-!
# Lines with something on them

The text of a script has no blank lines as long as no part of its tree is empty. An escaped text cannot add
one: its line feeds stand between quotes, so that there is a quote on both sides of each of them, and
indentation only adds blanks to lines that hold something already.

* `Solid`: a text with something on each of its lines.
* `solid_escape`: **an escaped text is solid**, whatever it holds.
* `hasNoGap`: whether a node of a tree leaves no gap in its own text. `Statement.hasNoGaps`: whether no
  node does.
* `solid_render`: **the text of a statement without gaps is solid.**
-/

namespace BuildScript

namespace Shell

/-- White space: a blank, a tabulator or an end of a line or page. -/
def isBlank (b : UInt8) : Bool := b = 32 || (9 ≤ b && b ≤ 13)

/-- A text with something on each of its lines. -/
def Solid (text : Bytes) : Prop := ∀ line ∈ Bytes.lines text, ∃ b ∈ line, isBlank b = false

namespace Solid

variable {a b text : Bytes}

theorem ne_nil (h : Solid text) : text ≠ [] := by
  rintro rfl
  obtain ⟨b, hb, -⟩ := h [] List.mem_cons_self
  cases hb

/-- **Two texts with a line feed between them** have the lines of both. -/
theorem lineEnd_iff : Solid (a ++ 10 :: b) ↔ Solid a ∧ Solid b := by
  unfold Solid Bytes.lines
  rw [Bytes.splitOn_append, List.forall_mem_append]

theorem lines (ha : Solid a) (hb : Solid b) : Solid (a ++ 10 :: b) := lineEnd_iff.2 ⟨ha, hb⟩

theorem head?_ne (h : Solid text) : text.head? ≠ some 10 := by
  intro hhead
  obtain ⟨rest, rfl⟩ := List.head?_eq_some_iff.1 hhead
  have hempty : Solid [] := (lineEnd_iff.1 (show Solid ([] ++ 10 :: rest) from h)).1
  exact hempty.ne_nil rfl

theorem getLast?_ne (h : Solid text) : text.getLast? ≠ some 10 := by
  intro hlast
  obtain ⟨init, rfl⟩ := List.getLast?_eq_some_iff.1 hlast
  have hempty : Solid [] := (lineEnd_iff.1 h).2
  exact hempty.ne_nil rfl

/-- A text behind a solid one: its first line goes on with a line that holds something already. -/
theorem append_rest (ha : Solid a) (hb : ∀ line ∈ (Bytes.lines b).tail, ∃ c ∈ line, isBlank c = false) :
    Solid (a ++ b) := by
  obtain ⟨init, last, first, rest, hlinesA, hlinesB, hlines⟩ := Bytes.splitOn_append_text 10 a b
  unfold Solid Bytes.lines at ha ⊢
  unfold Bytes.lines at hb
  rw [hlinesA, List.forall_mem_append, List.forall_mem_singleton] at ha
  rw [hlinesB, List.tail_cons] at hb
  rw [hlines, List.forall_mem_append, List.forall_mem_cons]
  obtain ⟨c, hc, hblank⟩ := ha.2
  exact ⟨ha.1, ⟨c, List.mem_append_left _ hc, hblank⟩, hb⟩

theorem append (ha : Solid a) (hb : Solid b) : Solid (a ++ b) :=
  ha.append_rest fun line hline => hb line (List.mem_of_mem_tail hline)

/-- A text without a line feed may hold anything behind a solid one. -/
theorem append_line (ha : Solid a) (hb : 10 ∉ b) : Solid (a ++ b) := by
  apply ha.append_rest
  rw [Bytes.lines, Bytes.splitOn_of_not_mem hb]
  intro line hline
  cases hline

theorem iff_of_line (h : 10 ∉ text) : Solid text ↔ ∃ b ∈ text, isBlank b = false := by
  unfold Solid Bytes.lines
  rw [Bytes.splitOn_of_not_mem h, List.forall_mem_singleton]

/-- A fixed text on one line. -/
theorem of_line (h : (text.all (· != 10) && text.any fun b => !isBlank b) = true) : Solid text := by
  rw [Bool.and_eq_true, List.all_eq_true, List.any_eq_true] at h
  obtain ⟨hline, c, hc, hblank⟩ := h
  have hfeed : 10 ∉ text := fun hmem => absurd (hline 10 hmem) (by decide)
  exact (iff_of_line hfeed).2 ⟨c, hc, by simpa using hblank⟩

theorem flatMap {α : Type} {f : α → Bytes} {xs : List α} (hne : xs ≠ []) (h : ∀ x ∈ xs, Solid (f x)) :
    Solid (xs.flatMap f) := by
  induction xs with
  | nil => exact absurd rfl hne
  | cons x rest ih =>
    have hx := h x List.mem_cons_self
    cases rest with
    | nil => simpa using hx
    | cons y rest =>
      have hrest := ih (List.cons_ne_nil y rest) fun z hz => h z (List.mem_cons_of_mem x hz)
      exact hx.append hrest

theorem join {parts : List Bytes} (hne : parts ≠ []) (h : ∀ part ∈ parts, Solid part) :
    Solid (Bytes.join [10] parts) := by
  induction parts with
  | nil => exact absurd rfl hne
  | cons part rest ih =>
    have hpart := h part List.mem_cons_self
    cases rest with
    | nil => exact hpart
    | cons next rest =>
      have hrest := ih (List.cons_ne_nil next rest) fun x hx => h x (List.mem_cons_of_mem part hx)
      rw [Bytes.join, List.append_assoc, List.singleton_append]
      exact hpart.lines hrest

/-- **Indentation** adds blanks to lines that hold something. -/
theorem indent (h : Solid text) : Solid (indent text) := by
  have hne : (Bytes.lines text).map (fun line => 32 :: 32 :: line) ≠ [] := by
    rw [ne_eq, List.map_eq_nil_iff]
    exact Bytes.splitOn_ne_nil 10 text
  apply join hne
  intro part hpart
  obtain ⟨line, hline, rfl⟩ := List.mem_map.1 hpart
  obtain ⟨c, hc, hblank⟩ := h line hline
  have hfeed : 10 ∉ line := Bytes.not_mem_of_mem_splitOn hline
  have hindented : 10 ∉ 32 :: 32 :: line := by simpa using hfeed
  rw [iff_of_line hindented]
  exact ⟨c, List.mem_cons_of_mem _ (List.mem_cons_of_mem _ hc), hblank⟩

end Solid

/-! ## Words -/

/-- A byte without a meaning to the shell is no white space. -/
theorem not_isBlank_of_isPlain {b : UInt8} (h : isPlain b = true) : isBlank b = false := by
  have hword : (wordBytes.all fun b => !isBlank b) = true := by decide
  simp only [isPlain, Bool.or_eq_true, List.contains_iff_mem, decide_eq_true_eq] at h
  rcases h with h | h
  · simpa using List.all_eq_true.1 hword b h
  · have hlarge : 128 ≤ b.toNat := UInt8.le_iff_toNat_le.1 h
    have hne : b ≠ 32 := by
      rintro rfl
      revert h
      decide
    have hgt : ¬ b ≤ 13 := by
      intro hle
      have hsmall : b.toNat ≤ 13 := UInt8.le_iff_toNat_le.1 hle
      omega
    simp [isBlank, hne, hgt]

theorem solid_plain {text : Bytes} (hne : text ≠ []) (h : ∀ b ∈ text, isPlain b = true) : Solid text := by
  have hfeed : 10 ∉ text := by
    intro hmem
    have hblank := not_isBlank_of_isPlain (h 10 hmem)
    cases hblank
  obtain ⟨b, rest, rfl⟩ := List.exists_cons_of_ne_nil hne
  have hb := List.mem_cons_self (a := b) (l := rest)
  exact (Solid.iff_of_line hfeed).2 ⟨b, hb, not_isBlank_of_isPlain (h b hb)⟩

/-- What is written for a piece is solid: a line feed has a quote on either side. -/
theorem solid_escapePiece {piece : Utf8.Piece} (h : piece.WellFormed) : Solid (Word.escapePiece piece) := by
  rcases escapePiece_cases h with ⟨he, hne, hplain⟩ | ⟨he, -⟩ | ⟨b, tail, -, he, hb, htail⟩
  · rw [he]
    exact solid_plain hne hplain
  · have hquote : Solid [39] := .of_line (by decide)
    rw [he]
    exact hquote.lines hquote
  · have hslash : Solid [92] := .of_line (by decide)
    have hfeed : 10 ∉ b :: tail := by
      intro hmem
      rcases List.mem_cons.1 hmem with hbyte | hmem
      · exact hb hbyte.symm
      · have hblank := not_isBlank_of_isPlain (htail 10 hmem)
        cases hblank
    rw [he]
    exact hslash.append_line hfeed

/-- **An escaped text is solid**, whatever it holds. -/
theorem solid_escape (s : Bytes) : Solid (Word.escape s) := by
  unfold Word.escape
  split
  · exact .of_line (by decide)
  · next hs =>
    apply Solid.flatMap (Utf8.pieces_ne_nil hs)
    intro piece hpiece
    exact solid_escapePiece (Utf8.wellFormed_pieces hpiece)

/-! ## Conditions and actions -/

theorem solid_testText {flag : Bytes} (hflag : 10 ∉ flag) (path : Bytes) : Solid (testText flag path) := by
  have hopen : Solid (bytes "[[ ") := .of_line (by decide)
  have hblank : 10 ∉ bytes " " := by decide
  have hclose : Solid (bytes " ]]") := .of_line (by decide)
  exact (((hopen.append_line hflag).append_line hblank).append (solid_escape path)).append hclose

theorem solid_written {condition : Condition} {text : Bytes} (h : Written condition text) : Solid text := by
  have hopen : Solid (bytes "\x7b ") := .of_line (by decide)
  have hclose : Solid (bytes "; \x7d") := .of_line (by decide)
  induction h with
  | present path => exact solid_testText (by decide) path
  | isDirectory path => exact solid_testText (by decide) path
  | isFile path => exact solid_testText (by decide) path
  | and hl hr ihl ihr =>
    have hmark : Solid (bytes " && ") := .of_line (by decide)
    exact (((hopen.append ihl).append hmark).append ihr).append hclose
  | or hl hr ihl ihr =>
    have hmark : Solid (bytes " || ") := .of_line (by decide)
    exact (((hopen.append ihl).append hmark).append ihr).append hclose
  | not h ih =>
    have hmark : Solid (bytes "\x7b ! ") := .of_line (by decide)
    exact (hmark.append ih).append hclose

/-- The flags that are given are solid, and those that are not leave nothing. -/
theorem solid_flags {line : Bytes} (h : Solid line) (options : List CommandOption) :
    Solid (line ++ flags options) := by
  have hecho : 10 ∉ bytes " --echo" := by decide
  have hdisplay : Solid (bytes " --display=") := .of_line (by decide)
  have hassert : 10 ∉ bytes " --assert" := by decide
  unfold flags
  rw [← List.append_assoc, ← List.append_assoc]
  apply Solid.append_line
  · have hechoed : Solid (line ++ if CommandOption.echoes options then bytes " --echo" else []) := by
      apply h.append_line
      split
      · exact hecho
      · exact List.not_mem_nil
    cases CommandOption.display? options with
    | some text => exact hechoed.append (hdisplay.append (solid_escape text))
    | none => exact hechoed.append_line List.not_mem_nil
  · split
    · exact hassert
    · exact List.not_mem_nil

theorem solid_renderAction {command : Command} {options : List CommandOption} {text : Bytes}
    (h : renderAction command options = .ok text) : Solid text := by
  have hname : Solid (commandFunction ++ bytes " ") := .of_line (by decide)
  obtain ⟨t, -, hline⟩ := bind_ok h
  rw [← Except.ok.inj hline]
  exact solid_flags (hname.append (solid_escape t)) options

/-! ## Statements -/

theorem solid_foldText {name body : Bytes} (hname : 10 ∉ name) (h : Solid body) :
    Solid (foldText name body) := by
  have hstart : Solid (foldFunction ++ bytes " start ") := .of_line (by decide)
  have hend : Solid (foldFunction ++ bytes " end ") := .of_line (by decide)
  have hfeed : bytes "\n" = [10] := by decide
  have hlines := ((hstart.append_line hname).lines h).lines (hend.append_line hname)
  simpa [foldText, hfeed] using hlines

theorem solid_ifLine {condition : Bytes} (h : Solid condition) :
    Solid (bytes "if " ++ condition ++ bytes "; then") := by
  have hif : Solid (bytes "if ") := .of_line (by decide)
  have hthen : Solid (bytes "; then") := .of_line (by decide)
  exact (hif.append h).append hthen

theorem bytes_then : bytes "; then\n" = bytes "; then" ++ [10] := by decide

section Branch

variable {c t f : Bytes} (hc : Solid c) (ht : Solid t)
include hc ht

theorem solid_whenText : Solid (whenText c t) := by
  have hfi : Solid (bytes "fi") := .of_line (by decide)
  have hend : bytes "\nfi" = 10 :: bytes "fi" := by decide
  have hlines := ((solid_ifLine hc).lines ht.indent).lines hfi
  simpa [whenText, bytes_then, hend] using hlines

theorem solid_chainText (hf : Solid f) : Solid (chainText c t f) := by
  have hel : Solid (bytes "el") := .of_line (by decide)
  have hstart : bytes "\nel" = 10 :: bytes "el" := by decide
  have hlines := ((solid_ifLine hc).lines ht.indent).lines (hel.append hf.indent)
  simpa [chainText, bytes_then, hstart] using hlines

theorem solid_eitherText (hf : Solid f) : Solid (eitherText c t f) := by
  have helse : Solid (bytes "else") := .of_line (by decide)
  have hfi : Solid (bytes "fi") := .of_line (by decide)
  have hstart : bytes "\nelse\n" = 10 :: bytes "else" ++ [10] := by decide
  have hend : bytes "\nfi" = 10 :: bytes "fi" := by decide
  have hlines := ((((solid_ifLine hc).lines ht.indent).lines helse).lines hf.indent).lines hfi
  simpa [eitherText, bytes_then, hstart, hend] using hlines

end Branch

/-- Whether a node leaves no gap in its own text: a sequence and a fold have something in them, and so has
a branch where its condition holds. -/
def hasNoGap : Statement → Bool
  | .sequence statements => statements.any fun s => !s.isNoop
  | .fold _ body => !body.isNoop
  | .branch condition onTrue _ => condition.runsNothing && !onTrue.isNoop
  | _ => true

end Shell

/-- Whether no node of a statement leaves a gap in its text. -/
def Statement.hasNoGaps (s : Statement) : Bool := s.everywhere Shell.hasNoGap

namespace Shell

mutual
/-- **The text of a statement without gaps is solid.** -/
theorem solid_render : ∀ (s : Statement) {text : Bytes}, s.isNoop = false → s.hasNoGaps = true →
    s.render = .ok text → Solid text := by
  intro s text hnoop hs h
  rw [Statement.hasNoGaps] at hs
  match s with
  | .missing | .noop => cases hnoop
  | .reference _ => cases h
  | .action command options => exact solid_renderAction h
  | .sequence statements =>
    rw [Statement.everywhere, Bool.and_eq_true, hasNoGap] at hs
    rw [Statement.render] at h
    obtain ⟨parts, hparts, hjoin⟩ := bind_ok h
    obtain ⟨hsome, hall⟩ := solid_renderEach statements hs.2 hparts
    rw [← Except.ok.inj hjoin]
    exact .join (hsome hs.1) hall
  | .fold name body =>
    rw [Statement.everywhere, Bool.and_eq_true, hasNoGap, Bool.not_eq_true'] at hs
    rw [Statement.render] at h
    split at h
    · cases h
    · next hcheck =>
      obtain ⟨t, ht, htext⟩ := bind_ok h
      rw [← Except.ok.inj htext]
      exact solid_foldText (not_mem_of_check hcheck) (solid_render body hs.1 hs.2 ht)
  | .branch condition onTrue onFalse =>
    rw [Statement.everywhere, Bool.and_eq_true, Bool.and_eq_true, hasNoGap, Bool.and_eq_true,
      Bool.not_eq_true'] at hs
    obtain ⟨⟨⟨hruns, hthere⟩, htrue⟩, hfalse⟩ := hs
    rw [Statement.render] at h
    obtain ⟨c, hc, h⟩ := bind_ok h
    obtain ⟨t, ht, h⟩ := bind_ok h
    have hcondition := solid_written (written_of_render hruns hc)
    have hyes := solid_render onTrue hthere htrue ht
    split at h
    · rw [← Except.ok.inj h]
      exact solid_whenText hcondition hyes
    · next hother =>
      obtain ⟨f, hf, h⟩ := bind_ok h
      have hno := solid_render onFalse (Bool.not_eq_true _ ▸ hother) hfalse hf
      rw [← Except.ok.inj h]
      split
      · exact solid_chainText hcondition hyes hno
      · exact solid_eitherText hcondition hyes hno
/-- The texts of statements in a row: there is one if there is something to be done, and all of them are
solid. -/
theorem solid_renderEach : ∀ (statements : List Statement) {parts : List Bytes},
    Statement.everywhereEach hasNoGap statements = true → Statement.renderEach statements = .ok parts →
    ((statements.any fun s => !s.isNoop) = true → parts ≠ []) ∧ ∀ part ∈ parts, Solid part := by
  intro statements parts hs h
  match statements with
  | [] =>
    cases h
    exact ⟨fun hany => absurd hany Bool.false_ne_true, fun part hpart => absurd hpart List.not_mem_nil⟩
  | statement :: rest =>
    rw [Statement.everywhereEach, Bool.and_eq_true] at hs
    rw [Statement.renderEach] at h
    split at h
    · next hnoop =>
      rw [List.any_cons, hnoop]
      exact solid_renderEach rest hs.2 h
    · next hnoop =>
      obtain ⟨text, htext, h⟩ := bind_ok h
      obtain ⟨texts, htexts, h⟩ := bind_ok h
      have hfirst := solid_render statement (Bool.not_eq_true _ ▸ hnoop) hs.1 htext
      have hrest := (solid_renderEach rest hs.2 htexts).2
      rw [← Except.ok.inj h]
      exact ⟨fun _ => List.cons_ne_nil _ _, List.forall_mem_cons.2 ⟨hfirst, hrest⟩⟩
end

end Shell

end BuildScript
