import BuildScript.Text.Bytes
import Mathlib.Data.List.Basic

/-!
# Reading shell text

How a shell takes a text apart, as far as quoting goes: a backslash makes the next byte literal, what
is between single quotes is literal, blanks outside quotes end a word and line feeds outside quotes
end a command. A policy says which bytes may stand for themselves, so that the same reader serves as
a lenient and as a strict one.

* `Shell.commands?`, `Shell.words?`: the commands of a text, each a row of words; all the words.
* `Reads`: a text that is read as a part of one word, wherever the reader stands outside quotes.
* `commands?_join`: texts that are read as words, put in a row with blanks, are one command.
* `commands?_line`: a text is read command by command.
* `run_mono`: **a stricter policy reads the same or fails.**
-/

namespace BuildScript.Shell

/-- Where a reader stands between two bytes. -/
inductive Mode where
  /-- Outside quotes. -/
  | bare
  /-- Between single quotes. -/
  | quoted
  /-- After a backslash. -/
  | escaped
  deriving Repr, DecidableEq

/-- Which bytes may stand for themselves. Outside quotes this is asked only of bytes that are neither
a quote nor a backslash nor a blank nor a line feed. -/
abbrev Policy := Mode → UInt8 → Bool

/-- The ASCII characters without a meaning to the shell that a strict reader takes. -/
def wordBytes : Bytes :=
  bytes "ABCDEFGHIJKLMNOPQRSTUVWXYZabcdefghijklmnopqrstuvwxyz0123456789_-.,:/@"

/-- Whether a byte has no meaning to the shell: a strict reader takes it as it stands. -/
def isPlain (b : UInt8) : Bool := wordBytes.contains b || 0x80 ≤ b

namespace Policy

/-- All bytes may. -/
def lenient : Policy := fun _ _ => true

/-- Outside quotes, only plain bytes may. -/
def strict : Policy
  | .bare, b => isPlain b
  | _, _ => true

end Policy

/-- What has been read so far. -/
structure Reader where
  mode : Mode
  /-- The word that has begun, if one has. -/
  word? : Option Bytes
  /-- The words of the command that has begun. -/
  words : List Bytes
  /-- The commands before it. -/
  commands : List (List Bytes)
  deriving Repr, DecidableEq

namespace Reader

/-- A reader at the start of a text. -/
def start : Reader := ⟨.bare, none, [], []⟩

/-- Bytes added to the word that has begun, or a word begun with them. -/
def extend (r : Reader) (s : Bytes) : Reader := { r with word? := some (r.word?.getD [] ++ s) }

/-- The end of a word, if one has begun. -/
def endWord (r : Reader) : Reader := { r with word? := none, words := r.words ++ r.word?.toList }

/-- The end of a command. -/
def endLine (r : Reader) : Reader :=
  { r.endWord with words := [], commands := r.commands ++ [r.endWord.words] }

/-- One byte is read. -/
def step (policy : Policy) (r : Reader) (b : UInt8) : Option Reader :=
  match r.mode with
  | .quoted =>
    if b = 39 then some { r with mode := .bare }
    else if policy .quoted b then some (r.extend [b])
    else none
  | .escaped => if policy .escaped b then some { r.extend [b] with mode := .bare } else none
  | .bare =>
    if b = 39 then some { r.extend [] with mode := .quoted }
    else if b = 92 then some { r with mode := .escaped }
    else if b = 32 || b = 9 then some r.endWord
    else if b = 10 then some r.endLine
    else if policy .bare b then some (r.extend [b])
    else none

/-- A text is read. -/
def run (policy : Policy) (r : Reader) (text : Bytes) : Option Reader :=
  text.foldlM (step policy) r

/-- The commands at the end of a text, which must not be inside quotes. -/
def finish (r : Reader) : Option (List (List Bytes)) :=
  if r.mode = .bare then some r.endLine.commands else none

end Reader

/-- The commands of a text, one for each line, each with its words. -/
def commands? (policy : Policy) (text : Bytes) : Option (List (List Bytes)) :=
  (Reader.start.run policy text).bind Reader.finish

/-- The words of a text. -/
def words? (policy : Policy) (text : Bytes) : Option (List Bytes) :=
  (commands? policy text).map List.flatten

namespace Reader

variable {p q : Policy} {r r' : Reader}

@[simp] theorem run_nil : r.run p [] = some r := rfl

@[simp] theorem run_cons (b : UInt8) (text : Bytes) :
    r.run p (b :: text) = (r.step p b).bind fun r' => r'.run p text := rfl

theorem run_append (a b : Bytes) : r.run p (a ++ b) = (r.run p a).bind fun r' => r'.run p b := by
  simp only [run, List.foldlM_append]; rfl

@[simp] theorem extend_mode (s : Bytes) : (r.extend s).mode = r.mode := rfl

@[simp] theorem extend_words (s : Bytes) : (r.extend s).words = r.words := rfl

@[simp] theorem extend_commands (s : Bytes) : (r.extend s).commands = r.commands := rfl

@[simp] theorem extend_extend (s t : Bytes) : (r.extend s).extend t = r.extend (s ++ t) := by
  simp [extend]

@[simp] theorem endWord_mode : r.endWord.mode = r.mode := rfl

@[simp] theorem endLine_mode : r.endLine.mode = r.mode := rfl

/-- A blank between words changes nothing. -/
theorem endWord_of_none (h : r.word? = none) : r.endWord = r := by
  cases r; simp_all [endWord]

theorem step_blank (h : r.mode = .bare) : r.step p 32 = some r.endWord := by simp [step, h]

theorem step_lineEnd (h : r.mode = .bare) : r.step p 10 = some r.endLine := by simp [step, h]

/-- Whether a byte outside quotes neither quotes nor separates. -/
def isOrdinary (b : UInt8) : Bool := b != 39 && b != 92 && b != 32 && b != 9 && b != 10

theorem step_ordinary {b : UInt8} (h : r.mode = .bare) (hb : isOrdinary b = true)
    (hp : p .bare b = true) : r.step p b = some (r.extend [b]) := by
  simp only [isOrdinary, Bool.and_eq_true, bne_iff_ne] at hb
  obtain ⟨⟨⟨⟨h39, h92⟩, h32⟩, h9⟩, h10⟩ := hb
  simp [step, h, h39, h92, h32, h9, h10, hp]

theorem step_mono (hpq : ∀ m b, p m b = true → q m b = true) {b : UInt8}
    (h : r.step p b = some r') : r.step q b = some r' := by
  unfold step at h ⊢
  split <;> simp only [*] at h ⊢ <;> grind

/-- **A stricter policy reads the same or fails.** -/
theorem run_mono (hpq : ∀ m b, p m b = true → q m b = true) {text : Bytes} :
    ∀ {r r' : Reader}, r.run p text = some r' → r.run q text = some r' := by
  induction text with
  | nil => intro r r' h; exact h
  | cons b text ih =>
    intro r r' h
    rw [run_cons] at h ⊢
    obtain ⟨m, hm, hr⟩ := Option.bind_eq_some_iff.1 h
    rw [step_mono hpq hm]
    exact ih hr

/-- Commands read earlier, put in front. -/
def prepend (before : List (List Bytes)) (r : Reader) : Reader :=
  { r with commands := before ++ r.commands }

theorem step_prepend (before : List (List Bytes)) (b : UInt8) :
    (r.prepend before).step p b = (r.step p b).map (prepend before) := by
  -- no step looks at the commands before the one that has begun
  obtain ⟨mode, word?, words, commands⟩ := r
  cases mode <;> simp only [step, prepend] <;> (repeat' split) <;>
    simp [prepend, extend, endWord, endLine]

/-- **What was read earlier does not matter** to what is read next. -/
theorem run_prepend (before : List (List Bytes)) (text : Bytes) :
    ∀ r : Reader, (r.prepend before).run p text = (r.run p text).map (prepend before) := by
  induction text with
  | nil => intro r; rfl
  | cons b text ih =>
    intro r
    rw [run_cons, run_cons, step_prepend]
    cases r.step p b with
    | none => rfl
    | some m => exact ih m

end Reader

open Reader

variable {p q : Policy}

theorem commands?_mono (hpq : ∀ m b, p m b = true → q m b = true) {text : Bytes}
    {commands : List (List Bytes)} (h : commands? p text = some commands) :
    commands? q text = some commands := by
  obtain ⟨r, hr, hf⟩ := Option.bind_eq_some_iff.1 h
  exact Option.bind_eq_some_iff.2 ⟨r, run_mono hpq hr, hf⟩

/-- **A text is read command by command.** What stands before a line feed outside quotes is read on
its own. -/
theorem commands?_line {a b : Bytes} {before : List (List Bytes)} (ha : commands? p a = some before) :
    commands? p (a ++ 10 :: b) = (commands? p b).map (before ++ ·) := by
  obtain ⟨r, hr, hf⟩ := Option.bind_eq_some_iff.1 ha
  have hm : r.mode = .bare := by
    by_contra hm; simp [finish, hm] at hf
  have hend : r.endLine = start.prepend before := by
    simp only [finish, hm, if_true, Option.some.injEq] at hf
    simp [prepend, start, endLine, endWord, hm, ← hf]
  have hrun : start.run p (a ++ 10 :: b) = (start.run p b).map (prepend before) := by
    rw [run_append, hr, Option.bind_some, run_cons, step_lineEnd hm, Option.bind_some, hend,
      run_prepend]
  unfold commands?
  rw [hrun]
  cases start.run p b with
  | none => rfl
  | some r' =>
    simp only [Option.map_some, Option.bind_some, finish, prepend, endLine, endWord]
    split <;> simp

/-- A text that is read as a part of one word, wherever the reader stands outside quotes. -/
def Reads (p : Policy) (text word : Bytes) : Prop :=
  ∀ r : Reader, r.mode = .bare → r.run p text = some (r.extend word)

namespace Reads

theorem append {a b u v : Bytes} (ha : Reads p a u) (hb : Reads p b v) : Reads p (a ++ b) (u ++ v) := by
  intro r hm
  rw [run_append, ha r hm, Option.bind_some, hb _ (by simpa using hm), extend_extend]

theorem mono (hpq : ∀ m b, p m b = true → q m b = true) {text word : Bytes} (h : Reads p text word) :
    Reads q text word :=
  fun r hm => run_mono hpq (h r hm)

/-- Texts in a row, each read as a part of the word, are read as a part of the word. -/
theorem flatMap {α : Type} {f g : α → Bytes} {xs : List α} (hne : xs ≠ [])
    (h : ∀ x ∈ xs, Reads p (f x) (g x)) : Reads p (xs.flatMap f) (xs.flatMap g) := by
  induction xs with
  | nil => exact absurd rfl hne
  | cons x rest ih =>
    have hx := h x List.mem_cons_self
    cases rest with
    | nil => simpa using hx
    | cons y rest =>
      exact hx.append (ih (List.cons_ne_nil y rest) fun z hz => h z (List.mem_cons_of_mem x hz))

/-- Bytes that neither quote nor separate are read as themselves. -/
theorem ordinary {text : Bytes} (hne : text ≠ []) (hb : ∀ b ∈ text, isOrdinary b = true)
    (hp : ∀ b ∈ text, p .bare b = true) : Reads p text text := by
  have h := flatMap (f := fun b => [b]) (g := fun b => [b]) hne fun b hmem r hm => by
    rw [run_cons, step_ordinary hm (hb b hmem) (hp b hmem)]; rfl
  simpa using h

end Reads

/-- **Words in a row.** Texts that are read as words, with blanks between them, go on with the command
that has begun. -/
theorem run_join {tokens words : List Bytes} (h : List.Forall₂ (Reads p) tokens words) :
    ∀ r : Reader, r.mode = .bare → r.word? = none →
      ∃ r', r.run p (Bytes.join [32] tokens) = some r' ∧ r'.mode = .bare ∧
        r'.endWord = { r with words := r.words ++ words } := by
  induction h with
  | nil =>
    intro r hm hw
    exact ⟨r, rfl, hm, by rw [endWord_of_none hw]; simp⟩
  | @cons t w ts ws ht hts ih =>
    intro r hm hw
    have hread := ht r hm
    have hnext : (r.extend w).endWord = { r with words := r.words ++ [w] } := by
      simp [endWord, extend, hw]
    cases hts with
    | nil =>
      -- the last word is still open: only the end of the text ends it
      exact ⟨r.extend w, hread, by simpa using hm, hnext⟩
    | @cons t' w' ts ws ht' hts' =>
      obtain ⟨r', hr', hm', hend⟩ := ih { r with words := r.words ++ [w] } hm hw
      refine ⟨r', ?_, hm', ?_⟩
      · rw [Bytes.join, List.append_assoc, run_append, hread, Option.bind_some, List.singleton_append,
          run_cons, step_blank (by simpa using hm), Option.bind_some, hnext, hr']
      · rw [hend]; simp

/-- **One command.** Texts that are read as words, with blanks between them, are one command. -/
theorem commands?_join {tokens words : List Bytes} (h : List.Forall₂ (Reads p) tokens words) :
    commands? p (Bytes.join [32] tokens) = some [words] := by
  obtain ⟨r, hr, hm, hend⟩ := run_join h start rfl rfl
  have hcommands : r.commands = [] := congrArg Reader.commands hend
  rw [commands?, hr, Option.bind_some, finish, if_pos hm, endLine, hend, hcommands]
  rfl

end BuildScript.Shell
