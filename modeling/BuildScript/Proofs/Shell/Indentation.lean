import BuildScript.Proofs.Shell.ActionLine
import BuildScript.Proofs.Text.Parts
import Mathlib.Logic.Function.Iterate

/-!
# Indented text as the shell reads it

Indentation works on lines of text and knows nothing of quotes. Outside quotes the blanks that it adds
stand at the start of a command and mean nothing; between quotes they become part of a word. So
indentation keeps the commands of a text and their words apart from one thing: every line feed in a
word is followed by two more blanks.

* `shift`: a text with two blanks after every line feed.
* `commands?_indent`: **an indented text is read as the commands of the text, with every word
  shifted.**
* `iterate_shift_eq_self`: shifting changes exactly the texts with a line feed.
-/

namespace BuildScript.Shell

open Reader

/-- A text with two blanks after every line feed. -/
def shift (s : Bytes) : Bytes := s.flatMap fun b => if b = 10 then [10, 32, 32] else [b]

theorem shift_append (s t : Bytes) : shift (s ++ t) = shift s ++ shift t := List.flatMap_append

theorem shift_cons (b : UInt8) (s : Bytes) : shift (b :: s) = shift [b] ++ shift s :=
  shift_append [b] s

theorem shift_lineEnd : shift [10] = [10, 32, 32] := rfl

theorem shift_byte {b : UInt8} (h : b ≠ 10) : shift [b] = [b] := by simp [shift, h]

/-- **Indentation in closed form**: two blanks in front, and two after every line feed. -/
theorem indent_eq (text : Bytes) : indent text = [32, 32] ++ shift text := by
  unfold indent Bytes.lines
  induction text with
  | nil => rfl
  | cons b rest ih =>
    rw [shift_cons]
    obtain ⟨part, parts, hsplit⟩ := List.exists_cons_of_ne_nil (Bytes.splitOn_ne_nil 10 rest)
    rw [hsplit, List.map_cons, Bytes.join_cons] at ih
    rw [Bytes.splitOn]
    split
    · rename_i hb
      rw [hsplit, List.map_cons, List.map_cons, Bytes.join_cons, List.flatMap_cons, hb, shift_lineEnd]
      simpa using ih
    · rename_i hb
      rw [hsplit]
      simp only [List.map_cons]
      rw [Bytes.join_cons, shift_byte hb]
      simpa using ih

namespace Reader

variable {r r' : Reader}

/-- A reader all of whose words are shifted. -/
def shifted (r : Reader) : Reader :=
  ⟨r.mode, r.word?.map shift, r.words.map shift, r.commands.map (·.map shift)⟩

theorem shifted_extend (s : Bytes) : (r.extend s).shifted = r.shifted.extend (shift s) := by
  obtain ⟨mode, word?, words, commands⟩ := r
  cases word? <;> simp [shifted, extend, shift]

theorem shifted_endWord : r.endWord.shifted = r.shifted.endWord := by
  obtain ⟨mode, word?, words, commands⟩ := r
  cases word? <;> simp [shifted, endWord]

theorem shifted_endLine : r.endLine.shifted = r.shifted.endLine := by
  obtain ⟨mode, word?, words, commands⟩ := r
  cases word? <;> simp [shifted, endWord, endLine]

/-- A step over any byte but a line feed is the same step for shifted words. -/
theorem step_shifted {b : UInt8} (hb : b ≠ 10) (h : r.step .steady b = some r') :
    r.shifted.step .steady b = some r'.shifted := by
  have hext : ∀ r : Reader, (r.extend [b]).shifted = r.shifted.extend [b] := fun r => by
    rw [shifted_extend, shift_byte hb]
  have hnil : ∀ r : Reader, (r.extend []).shifted = r.shifted.extend [] := fun r => shifted_extend []
  have hmode : r.shifted.mode = r.mode := rfl
  unfold step at h ⊢
  rw [hmode]
  cases hm : r.mode with
  | quoted =>
    simp only [hm] at h ⊢
    split at h
    · cases h; simp_all [shifted]
    · split at h
      · cases h; simp_all
      · simp at h
  | escaped =>
    simp only [hm] at h ⊢
    split at h
    · cases h
      rename_i hp
      rw [if_pos hp, ← hext]; rfl
    · simp at h
  | bare =>
    simp only [hm] at h ⊢
    split at h
    · cases h
      rename_i h39
      rw [if_pos h39, ← hnil]; rfl
    split at h
    · cases h; simp_all [shifted]
    split at h
    · cases h; simp_all [shifted_endWord]
    split at h
    · cases h; simp_all
    · simp at h

/-- **A step over a line feed**: the two blanks after it are read as nothing outside quotes, and as
part of the word between quotes. -/
theorem run_shifted_lineEnd (h : r.step .steady 10 = some r') :
    r.shifted.run .steady [10, 32, 32] = some r'.shifted := by
  cases hm : r.mode with
  | quoted =>
    have hr' : r' = r.extend [10] := by simpa [step, hm, Policy.steady] using h.symm
    have hm' : r.shifted.mode = .quoted := hm
    rw [hr', shifted_extend, shift_lineEnd]
    simp [step, hm', Policy.steady]
  | escaped => simp [step, hm, Policy.steady] at h
  | bare =>
    -- the blanks would end a word, but none has begun on the new line
    have hr' : r' = r.endLine := by rw [step_lineEnd hm] at h; exact (Option.some.inj h).symm
    have hm' : r.shifted.endLine.mode = .bare := hm
    have hnone : r.shifted.endLine.endWord = r.shifted.endLine := endWord_of_none rfl
    rw [hr', shifted_endLine, run_cons, step_lineEnd (show r.shifted.mode = .bare from hm),
      Option.bind_some, run_cons, step_blank hm', Option.bind_some, hnone, run_cons, step_blank hm',
      Option.bind_some, hnone, run_nil]

/-- **Shifted text is read as shifted words.** -/
theorem run_shifted (text : Bytes) : ∀ {r r' : Reader}, r.run .steady text = some r' →
    r.shifted.run .steady (shift text) = some r'.shifted := by
  induction text with
  | nil => intro r r' h; cases h; rfl
  | cons b text ih =>
    intro r r' h
    rw [run_cons] at h
    obtain ⟨m, hm, hr⟩ := Option.bind_eq_some_iff.1 h
    rw [shift_cons, run_append]
    by_cases hb : b = 10
    · subst hb
      rw [shift_lineEnd, run_shifted_lineEnd hm, Option.bind_some, ih hr]
    · rw [shift_byte hb, run_cons, step_shifted hb hm, Option.bind_some, run_nil, Option.bind_some,
        ih hr]

end Reader

/-- **Indented text** is read as the same commands with every word shifted. -/
theorem commands?_indent {text : Bytes} {commands : List (List Bytes)}
    (h : commands? .steady text = some commands) :
    commands? .steady (indent text) = some (commands.map (·.map shift)) := by
  obtain ⟨r, hr, hf⟩ := Option.bind_eq_some_iff.1 h
  have hrun : start.run .steady (indent text) = some r.shifted := by
    rw [indent_eq, run_append]
    exact run_shifted text hr
  rw [commands?, hrun, Option.bind_some]
  unfold finish at hf ⊢
  split at hf
  · rename_i hm
    rw [if_pos (show r.shifted.mode = .bare from hm), ← shifted_endLine, ← Option.some.inj hf]
    rfl
  · simp at hf

theorem mem_shift {s : Bytes} : 10 ∈ shift s ↔ 10 ∈ s := by
  induction s with
  | nil => simp [shift]
  | cons b s ih =>
    rw [shift_cons, List.mem_append, ih, List.mem_cons]
    by_cases hb : b = 10
    · simp [hb, shift_lineEnd]
    · simp [shift_byte hb]

theorem length_shift (s : Bytes) : (shift s).length = s.length + 2 * s.count 10 := by
  induction s with
  | nil => rfl
  | cons b s ih =>
    rw [shift_cons, List.length_append, ih, List.length_cons, List.count_cons]
    by_cases hb : b = 10
    · simp [hb, shift_lineEnd]; omega
    · simp [hb, shift_byte hb]; omega

theorem shift_eq_self {s : Bytes} (h : 10 ∉ s) : shift s = s := by
  induction s with
  | nil => rfl
  | cons b s ih =>
    rw [List.mem_cons, not_or] at h
    rw [shift_cons, shift_byte (Ne.symm h.1), ih h.2]; rfl

theorem length_le_iterate_shift (s : Bytes) (n : Nat) : s.length ≤ (shift^[n] s).length := by
  induction n with
  | zero => exact Nat.le_refl _
  | succ n ih => rw [Function.iterate_succ_apply', length_shift]; omega

/-- **Shifting changes exactly the texts with a line feed.** -/
theorem iterate_shift_eq_self {n : Nat} {s : Bytes} : shift^[n] s = s ↔ (n ≠ 0 → 10 ∉ s) := by
  constructor
  · intro h hn hmem
    obtain ⟨k, rfl⟩ : ∃ k, n = k + 1 := ⟨n - 1, by omega⟩
    have hlen := congrArg List.length h
    have hcount : 0 < s.count 10 := List.count_pos_iff.2 hmem
    have hle := length_le_iterate_shift (shift s) k
    rw [Function.iterate_succ_apply] at hlen
    rw [length_shift] at hle
    omega
  · intro h
    rcases Nat.eq_zero_or_pos n with rfl | hn
    · rfl
    · exact Function.iterate_fixed (shift_eq_self (h (by omega))) n

end BuildScript.Shell
