import BuildScript.Proofs.Shell.Quoting
import BuildScript.Proofs.Text.Base64
import BuildScript.Proofs.Text.PathText
import BuildScript.Shell.Render
import Mathlib.Data.List.Forall2

/-!
# Actions as the shell reads them

An action is written as one command of the shell whose second word is the text of the action's own
command. That text is shell text again: the script's runtime has it evaluated. So paths and values
are escaped twice, and read twice.

* `CommandOption.Displays`: the text that an action has printed in place of its command.
* `commands?_renderAction`: the line of an action has the text of its command as one word, and a word
  for each flag.
* `action_read_twice`: **after the second reading every path, value and file is what it was in the
  tree.**
-/

namespace BuildScript

/-! ## What options ask for -/

namespace CommandOption

/-- The text that an option has printed in place of the command. -/
def text? : CommandOption → Option Bytes
  | display text => some text
  | _ => none

/-- The text to print in place of a command: that of the first option with a text, and none if no option
has one. -/
inductive Displays : List CommandOption → Option Bytes → Prop where
  | first (before : List CommandOption) (text : Bytes) (after : List CommandOption)
      (h : ∀ other, display other ∉ before) : Displays (before ++ display text :: after) (some text)
  | never (options : List CommandOption) (h : ∀ text, display text ∉ options) : Displays options none

theorem text?_eq_some_iff {option : CommandOption} {text : Bytes} :
    option.text? = some text ↔ option = display text := by
  cases option <;> simp [text?]

theorem text?_eq_none_iff {options : List CommandOption} :
    (∀ option ∈ options, option.text? = none) ↔ ∀ text, display text ∉ options := by
  constructor
  · intro h text hmem
    cases h _ hmem
  · intro h option hmem
    cases htext : option.text? with
    | none => rfl
    | some text =>
      rw [text?_eq_some_iff.1 htext] at hmem
      exact absurd hmem (h text)

/-- **The text that is displayed** is found by one search for a text. -/
theorem displays_iff {options : List CommandOption} {shown? : Option Bytes} :
    Displays options shown? ↔ options.findSome? text? = shown? := by
  constructor
  · intro hshown
    cases hshown with
    | first before text after h =>
      rw [List.findSome?_eq_some_iff]
      exact ⟨before, display text, after, rfl, rfl, text?_eq_none_iff.2 h⟩
    | never options h =>
      rw [List.findSome?_eq_none_iff]
      exact text?_eq_none_iff.2 h
  · rintro rfl
    cases hfound : options.findSome? text? with
    | none =>
      rw [List.findSome?_eq_none_iff] at hfound
      exact .never options (text?_eq_none_iff.1 hfound)
    | some text =>
      obtain ⟨before, option, after, rfl, htext, hbefore⟩ := List.findSome?_eq_some_iff.1 hfound
      rw [text?_eq_some_iff.1 htext]
      exact .first before text after (text?_eq_none_iff.1 hbefore)

theorem echoes_eq (options : List CommandOption) : echoes options = decide (echo ∈ options) :=
  List.contains_eq_mem echo options

theorem asserts_eq (options : List CommandOption) : asserts options = decide (assert ∈ options) :=
  List.contains_eq_mem assert options

theorem display?_eq (options : List CommandOption) : display? options = options.findSome? text? := by
  induction options with
  | nil => rfl
  | cons option rest ih =>
    cases option with
    | display text => rfl
    | _ => exact ih

end CommandOption

namespace Shell

open Reader

/-! ## The line of an action -/

/-- All bytes may stand for themselves, but a line feed after a backslash, which a shell takes away. -/
def Policy.steady : Policy
  | .escaped, b => b ≠ 10
  | _, _ => true

theorem steady_le_lenient (m : Mode) (b : UInt8) (_ : Policy.steady m b = true) :
    Policy.lenient m b = true := rfl

theorem tight_le_steady (m : Mode) (b : UInt8) (h : Policy.tight m b = true) :
    Policy.steady m b = true := by
  cases m with
  | bare => rfl
  | quoted => rfl
  | escaped => exact h

/-- An escaped text is read as the text. -/
theorem reads_escape (s : Bytes) : Reads .steady (Word.escape s) s :=
  (reads_escape_tight s).mono tight_le_steady

/-- A text without quoting marks, blanks and line feeds is read as it stands. -/
theorem reads_ordinary {text : Bytes} (h : (text != [] && text.all isOrdinary) = true) :
    Reads .steady text text := by
  rw [Bool.and_eq_true, bne_iff_ne, List.all_eq_true] at h
  exact Reads.ordinary h.1 h.2 fun _ _ => rfl

/-- The words that the flags of an action stand for. -/
def flagWords (options : List CommandOption) : List Bytes :=
  (if .echo ∈ options then [bytes "--echo"] else [])
    ++ (options.findSome? CommandOption.text?).toList.map (bytes "--display=" ++ ·)
    ++ (if .assert ∈ options then [bytes "--assert"] else [])

/-- The words of an action whose command has the text `text`. -/
def actionWords (text : Bytes) (options : List CommandOption) : List Bytes :=
  bytes "travis_cmd" :: text :: flagWords options

/-- The flags of an action as they are written. -/
def flagTokens (options : List CommandOption) : List Bytes :=
  (if .echo ∈ options then [bytes "--echo"] else [])
    ++ (options.findSome? CommandOption.text?).toList.map (bytes "--display=" ++ Word.escape ·)
    ++ (if .assert ∈ options then [bytes "--assert"] else [])

theorem flags_eq (options : List CommandOption) :
    flags options = (flagTokens options).flatMap ([32] ++ ·) := by
  unfold flags flagTokens
  have hecho : bytes " --echo" = [32] ++ bytes "--echo" := by decide
  have hdisplay : bytes " --display=" = [32] ++ bytes "--display=" := by decide
  have hassert : bytes " --assert" = [32] ++ bytes "--assert" := by decide
  simp only [CommandOption.echoes_eq, CommandOption.asserts_eq, CommandOption.display?_eq, decide_eq_true_eq]
  rw [hecho, hdisplay, hassert, List.flatMap_append, List.flatMap_append]
  congr 1
  · congr 1
    · split <;> simp
    · cases options.findSome? CommandOption.text? <;> simp
  · split <;> simp

theorem forall₂_flags (options : List CommandOption) :
    List.Forall₂ (Reads .steady) (flagTokens options) (flagWords options) := by
  unfold flagTokens flagWords
  refine List.rel_append (List.rel_append ?_ ?_) ?_
  · split
    · exact .cons (reads_ordinary (by decide)) .nil
    · exact .nil
  · rw [List.forall₂_map_left_iff, List.forall₂_map_right_iff, List.forall₂_same]
    intro text _
    exact (reads_ordinary (by decide)).append (reads_escape text)
  · split
    · exact .cons (reads_ordinary (by decide)) .nil
    · exact .nil

/-- The line of an action is its tokens with blanks between them. -/
theorem renderAction_eq {command : Command} {text : Bytes} (h : command.render = .ok text)
    (options : List CommandOption) :
    renderAction command options =
      .ok (Bytes.join [32] (commandFunction :: Word.escape text :: flagTokens options)) := by
  have hline : renderAction command options =
      .ok (commandFunction ++ bytes " " ++ Word.escape text ++ flags options) := by
    rw [renderAction, h]; rfl
  rw [hline, flags_eq, Bytes.join_cons, List.flatMap_cons, show bytes " " = [32] from by decide]
  simp only [List.append_assoc]

/-- **The line of an action** is one command: the text of its command is one word, and so is each
flag. -/
theorem commands?_renderAction {command : Command} {text : Bytes} (h : command.render = .ok text)
    (options : List CommandOption) :
    ∃ line, renderAction command options = .ok line ∧
      commands? .steady line = some [actionWords text options] :=
  ⟨_, renderAction_eq h options, commands?_join
    (.cons (reads_ordinary (by decide)) (.cons (reads_escape text) (forall₂_flags options)))⟩

theorem pathWord_ok {operation path : Bytes} (h : isPathText path = true) :
    pathWord operation path = .ok (Word.escape path) := by
  simp [pathWord, checkPath, h]

/-- The text of a command, when the runtime has it evaluated, is one command with these words. -/
def Evaluates (command : Command) (words : List Bytes) : Prop :=
  ∃ text, command.render = .ok text ∧ commands? .lenient text = some [words]

theorem evaluates_of_tokens {command : Command} {tokens words : List Bytes}
    (hrender : command.render = .ok (Bytes.join [32] tokens))
    (h : List.Forall₂ (Reads .steady) tokens words) : Evaluates command words :=
  ⟨_, hrender, commands?_mono steady_le_lenient (commands?_join h)⟩

/-- **Fixed words before escaped paths** are read as the fixed words and the paths. -/
theorem evaluates_of_paths {command : Command} (fixed paths : List Bytes)
    (hfixed : (fixed.all fun word => word != [] && word.all isOrdinary) = true)
    (hrender : command.render = .ok (Bytes.join [32] (fixed ++ paths.map Word.escape))) :
    Evaluates command (fixed ++ paths) := by
  refine evaluates_of_tokens hrender (List.rel_append ?_ ?_)
  · rw [List.all_eq_true] at hfixed
    exact List.forall₂_same.2 fun word hword => reads_ordinary (hfixed word hword)
  · exact List.forall₂_map_left_iff.2 (List.forall₂_same.2 fun path _ => reads_escape path)

/-- The commands with one path. -/
theorem evaluates_path {path : Bytes} (hp : isPathText path = true) :
    Evaluates (.changeDir path) [bytes "cd", path] ∧
      Evaluates (.makeDir path) [bytes "mkdir", bytes "-p", path] ∧
      Evaluates (.remove path) [bytes "rm", bytes "-rf", path] := by
  refine ⟨evaluates_of_paths [bytes "cd"] [path] (by decide) ?_,
    evaluates_of_paths [bytes "mkdir", bytes "-p"] [path] (by decide) ?_,
    evaluates_of_paths [bytes "rm", bytes "-rf"] [path] (by decide) ?_⟩
  all_goals rw [Command.render, pathWord_ok hp]; rfl

/-- The commands with two paths. -/
theorem evaluates_paths {source target : Bytes} (hs : isPathText source = true)
    (ht : isPathText target = true) :
    Evaluates (.copy source target) [bytes "cp", bytes "-r", source, target] ∧
      Evaluates (.move source target) [bytes "mv", source, target] := by
  refine ⟨evaluates_of_paths [bytes "cp", bytes "-r"] [source, target] (by decide) ?_,
    evaluates_of_paths [bytes "mv"] [source, target] (by decide) ?_⟩
  all_goals
    rw [Command.render, pathWord_ok hs, pathWord_ok ht]
    simp only [List.map_cons, List.map_nil, List.cons_append, List.nil_append, Bytes.join,
      List.append_assoc]; rfl

/-- A file is written with its contents in base 64. -/
theorem evaluates_writeFile {path : Bytes} (hp : isPathText path = true) (data : Bytes) :
    Evaluates (.writeFile path data) [bytes "base64", bytes "--decode", bytes ">", path,
      bytes "<<<" ++ Base64.encode data] := by
  have hrender : (Command.writeFile path data).render =
      .ok (Bytes.join [32] [bytes "base64", bytes "--decode", bytes ">", Word.escape path,
        bytes "<<<" ++ Word.escape (Base64.encode data)]) := by
    rw [Command.render, pathWord_ok hp]
    simp only [Bytes.join, List.append_assoc]; rfl
  refine evaluates_of_tokens hrender (.cons (reads_ordinary (by decide))
    (.cons (reads_ordinary (by decide)) (.cons (reads_ordinary (by decide)) (.cons (reads_escape path)
      (.cons ?_ .nil)))))
  exact (reads_ordinary (by decide)).append (reads_escape _)

/-- Whether a byte can begin the name of a variable. -/
def isNameStart (b : UInt8) : Bool := (65 ≤ b && b ≤ 90) || (97 ≤ b && b ≤ 122) || b = 95

/-- Whether a text is the name of a variable: a letter or `_`, then letters, digits and `_`. -/
def isName : Bytes → Bool
  | [] => false
  | b :: rest => isNameStart b && rest.all fun c => isNameStart c || (48 ≤ c && c ≤ 57)

theorem isOrdinary_of_nameByte {b : UInt8} (h : (isNameStart b || (48 ≤ b && b ≤ 57)) = true) :
    isOrdinary b = true := by
  by_contra hb
  simp only [isOrdinary, Bool.and_eq_true, bne_iff_ne, not_and_or, not_not] at hb
  rcases hb with (((rfl | rfl) | rfl) | rfl) | rfl <;> revert h <;> decide

theorem reads_name {key : Bytes} (h : isName key = true) : Reads .steady key key := by
  cases key with
  | nil => simp [isName] at h
  | cons b rest =>
    simp only [isName, Bool.and_eq_true, List.all_eq_true] at h
    refine Reads.ordinary (List.cons_ne_nil b rest) ?_ fun _ _ => rfl
    intro c hc
    rcases List.mem_cons.1 hc with rfl | hc
    · exact isOrdinary_of_nameByte (by rw [h.1, Bool.true_or])
    · exact isOrdinary_of_nameByte (h.2 c hc)

/-- A variable is exported with its value. -/
theorem evaluates_setEnv {key : Bytes} (h : isName key = true) (value : Bytes) :
    Evaluates (.setEnv key value) [bytes "export", key ++ bytes "=" ++ value] := by
  have hrender : (Command.setEnv key value).render =
      .ok (Bytes.join [32] [bytes "export", key ++ bytes "=" ++ Word.escape value]) := by
    rw [Command.render]
    simp only [Bytes.join, List.append_assoc]; rfl
  refine evaluates_of_tokens hrender (.cons (reads_ordinary (by decide)) (.cons ?_ .nil))
  exact ((reads_name h).append (reads_ordinary (by decide))).append (reads_escape value)

/-- **Actions are read twice and nothing is lost.** The line of an action whose command has a text is
one command: the function that runs it, the text as one word, and a word for each flag, in a fixed
order; of several texts to display the first one counts. And the text of a command with paths, a
variable or a file is one command that holds each of them as a word of its own; what a file is to hold can
be decoded from its word. -/
theorem action_read_twice :
    (∀ (command : Command) (options : List CommandOption) (text : Bytes), command.render = .ok text →
      ∃ line shown?, renderAction command options = .ok line ∧ CommandOption.Displays options shown? ∧
        commands? .lenient line = some [
          [bytes "travis_cmd", text]
            ++ (if .echo ∈ options then [bytes "--echo"] else [])
            ++ shown?.toList.map (bytes "--display=" ++ ·)
            ++ (if .assert ∈ options then [bytes "--assert"] else [])]) ∧
    (∀ operation path : Bytes, checkPath operation path = .ok () →
      Evaluates (.changeDir path) [bytes "cd", path] ∧
      Evaluates (.makeDir path) [bytes "mkdir", bytes "-p", path] ∧
      Evaluates (.remove path) [bytes "rm", bytes "-rf", path] ∧
      (∀ data : Bytes, ∃ digits, Base64.decode? digits = some data ∧
        Evaluates (.writeFile path data)
          [bytes "base64", bytes "--decode", bytes ">", path, bytes "<<<" ++ digits]) ∧
      (∀ operation' target : Bytes, checkPath operation' target = .ok () →
        Evaluates (.copy path target) [bytes "cp", bytes "-r", path, target] ∧
        Evaluates (.move path target) [bytes "mv", path, target])) ∧
    (∀ key value : Bytes, isName key = true →
      Evaluates (.setEnv key value) [bytes "export", key ++ bytes "=" ++ value]) := by
  refine ⟨fun command options text h => ?_, fun operation path h => ?_,
    fun key value h => evaluates_setEnv h value⟩
  · obtain ⟨line, hline, hread⟩ := commands?_renderAction h options
    exact ⟨line, _, hline, CommandOption.displays_iff.2 rfl, commands?_mono steady_le_lenient hread⟩
  · have hp := isPathText_of_checkPath h
    obtain ⟨hcd, hmkdir, hrm⟩ := evaluates_path hp
    refine ⟨hcd, hmkdir, hrm, fun data => ?_, fun operation' target h' => ?_⟩
    · exact ⟨_, Base64.decode?_encode data, evaluates_writeFile hp data⟩
    · exact evaluates_paths hp (isPathText_of_checkPath h')

/-- The three parts at inputs with blanks, quotes and line feeds. Of the two texts to display the first one
is a word of the line. -/
theorem action_read_twice_sample :
    (∃ line, renderAction (.raw (bytes "a 'b'\nc"))
        [.assert, .display (bytes "x y"), .echo, .display (bytes "z")] = .ok line ∧
      commands? .lenient line = some [[bytes "travis_cmd", bytes "a 'b'\nc", bytes "--echo",
        bytes "--display=x y", bytes "--assert"]]) ∧
    Evaluates (.move (bytes "it's\n") (bytes "$(b) ;c")) [bytes "mv", bytes "it's\n", bytes "$(b) ;c"] ∧
    Evaluates (.setEnv (bytes "CI") (bytes "\n\n"))
      [bytes "export", bytes "CI" ++ bytes "=" ++ bytes "\n\n"] := by
  obtain ⟨haction, hpath, hvariable⟩ := action_read_twice
  refine ⟨?_, ?_, hvariable _ _ (by decide)⟩
  · obtain ⟨line, shown?, hline, hshown, hread⟩ := haction (.raw (bytes "a 'b'\nc"))
      [.assert, .display (bytes "x y"), .echo, .display (bytes "z")] _ rfl
    obtain rfl : some (bytes "x y") = shown? := CommandOption.displays_iff.1 hshown
    exact ⟨line, hline, hread⟩
  · obtain ⟨-, -, -, -, hpaths⟩ := hpath (bytes "mv") (bytes "it's\n") (by decide)
    exact (hpaths (bytes "mv") (bytes "$(b) ;c") (by decide)).2

end Shell

end BuildScript
