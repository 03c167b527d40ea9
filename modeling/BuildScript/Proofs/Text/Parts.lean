import BuildScript.Text.Bytes
import Mathlib.Data.List.Basic

/-!
# Texts cut into parts

A text is cut at a byte, its parts are put together again, and the same byte is taken off both ends.

* `bytes_append`: a text written in two pieces.
* `join_cons`, `join_concat`: a row of parts from its first and from its last part.
* `splitOn_join`: **parts without the separator are found again**; `join_splitOn`: the parts in a row
  are the text.
* `replaceByte_eq_join`: a byte replaced by another is another separator between the parts.
* `splitOn_append`, `splitOn_append_text`: the parts of a text on both sides of a separator, and of two
  texts without one between them.
* `not_mem_of_mem_splitOn`: the separator is in none of the parts.
* `trim_pad`: what is put around a text is taken off again.
-/

namespace BuildScript.Bytes

variable {sep : UInt8} {s part : Bytes} {parts : List Bytes}

theorem bytes_append (a b : String) : bytes (a ++ b) = bytes a ++ bytes b := by simp [bytes]

theorem join_cons (sep a : Bytes) (rest : List Bytes) :
    join sep (a :: rest) = a ++ rest.flatMap (sep ++ ·) := by
  induction rest generalizing a with
  | nil => simp [join]
  | cons b rest ih => rw [join, ih]; simp

/-- A last part is put behind what is there, if anything is there. -/
theorem join_concat (sep : Bytes) (init : List Bytes) (last : Bytes) :
    join sep (init ++ [last]) = (if init = [] then [] else join sep init ++ sep) ++ last := by
  cases init with
  | nil => rfl
  | cons first rest =>
    rw [List.cons_append, join_cons, join_cons, if_neg (List.cons_ne_nil first rest)]
    simp

/-- Parts that are kept apart by something take room. -/
theorem length_le_join {sep : Bytes} (hsep : sep ≠ []) (parts : List Bytes) :
    parts.length ≤ (join sep parts).length + 1 := by
  have hlength := List.length_pos_iff.2 hsep
  induction parts with
  | nil => exact Nat.zero_le _
  | cons part rest ih =>
    cases rest with
    | nil => exact Nat.le_add_left _ _
    | cons next rest =>
      rw [join, List.length_append, List.length_append, List.length_cons]
      omega

/-- What is in a row is in the separator or in one of the parts. -/
theorem mem_join {sep : Bytes} {b : UInt8} (h : b ∈ join sep parts) :
    b ∈ sep ∨ ∃ part ∈ parts, b ∈ part := by
  cases parts with
  | nil => cases h
  | cons first rest =>
    rw [join_cons, List.mem_append, List.mem_flatMap] at h
    rcases h with hfirst | ⟨part, hpart, hb⟩
    · exact Or.inr ⟨first, List.mem_cons_self, hfirst⟩
    · rcases List.mem_append.1 hb with hsep | hb
      · exact Or.inl hsep
      · exact Or.inr ⟨part, List.mem_cons_of_mem _ hpart, hb⟩

theorem splitOn_ne_nil (sep : UInt8) (s : Bytes) : splitOn sep s ≠ [] := by
  cases s with
  | nil => simp [splitOn]
  | cons b rest =>
    rw [splitOn]
    split
    · simp
    · split <;> simp

theorem not_mem_of_mem_splitOn (h : part ∈ splitOn sep s) : sep ∉ part := by
  induction s generalizing part with
  | nil => simp [List.mem_singleton.1 h]
  | cons b rest ih =>
    rw [splitOn] at h
    split at h
    · rcases List.mem_cons.1 h with rfl | h
      · simp
      · exact ih h
    · rename_i hb
      obtain ⟨first, others, hsplit⟩ := List.exists_cons_of_ne_nil (splitOn_ne_nil sep rest)
      rw [hsplit] at h ih
      rcases List.mem_cons.1 h with rfl | h
      · rw [List.mem_cons, not_or]
        exact ⟨Ne.symm hb, ih List.mem_cons_self⟩
      · exact ih (List.mem_cons_of_mem first h)

theorem splitOn_of_not_mem (h : sep ∉ s) : splitOn sep s = [s] := by
  induction s with
  | nil => rfl
  | cons b rest ih =>
    rw [List.mem_cons, not_or] at h
    rw [splitOn, if_neg (Ne.symm h.1), ih h.2]

theorem splitOn_append_cons (h : sep ∉ part) (s : Bytes) :
    splitOn sep (part ++ sep :: s) = part :: splitOn sep s := by
  induction part with
  | nil => simp [splitOn]
  | cons b rest ih =>
    rw [List.mem_cons, not_or] at h
    rw [List.cons_append, splitOn, if_neg (Ne.symm h.1), ih h.2]

/-- **Parts without the separator are found again.** -/
theorem splitOn_join (hne : parts ≠ []) (h : ∀ part ∈ parts, sep ∉ part) :
    splitOn sep (join [sep] parts) = parts := by
  induction parts with
  | nil => exact absurd rfl hne
  | cons part rest ih =>
    have hpart := h part List.mem_cons_self
    cases rest with
    | nil => exact splitOn_of_not_mem hpart
    | cons next rest =>
      have hrest := ih (List.cons_ne_nil next rest) fun x hx => h x (List.mem_cons_of_mem part hx)
      rw [join, List.append_assoc, List.singleton_append, splitOn_append_cons hpart, hrest]

theorem splitOn_append (sep : UInt8) (s t : Bytes) :
    splitOn sep (s ++ sep :: t) = splitOn sep s ++ splitOn sep t := by
  induction s with
  | nil => simp [splitOn]
  | cons b rest ih =>
    rw [List.cons_append, splitOn, splitOn, ih]
    obtain ⟨first, others, hsplit⟩ := List.exists_cons_of_ne_nil (splitOn_ne_nil sep rest)
    rw [hsplit]
    split
    · rfl
    · rfl

/-- Two texts one behind the other: the last part of the first goes on with the first part of the
second. -/
theorem splitOn_append_text (sep : UInt8) (s t : Bytes) :
    ∃ init last first rest, splitOn sep s = init ++ [last] ∧ splitOn sep t = first :: rest ∧
      splitOn sep (s ++ t) = init ++ (last ++ first) :: rest := by
  induction s with
  | nil =>
    obtain ⟨first, rest, hsplit⟩ := List.exists_cons_of_ne_nil (splitOn_ne_nil sep t)
    exact ⟨[], [], first, rest, rfl, hsplit, hsplit⟩
  | cons b s ih =>
    obtain ⟨init, last, first, rest, hs, ht, hst⟩ := ih
    by_cases hb : b = sep
    · refine ⟨[] :: init, last, first, rest, ?_, ht, ?_⟩
      · rw [splitOn, if_pos hb, hs, List.cons_append]
      · rw [List.cons_append, splitOn, if_pos hb, hst, List.cons_append]
    · -- the byte is put in front of the first part, which is the last one if there is no other
      cases init with
      | nil =>
        refine ⟨[], b :: last, first, rest, ?_, ht, ?_⟩
        · rw [splitOn, if_neg hb, hs]
          rfl
        · rw [List.cons_append, splitOn, if_neg hb, hst]
          rfl
      | cons head init =>
        refine ⟨(b :: head) :: init, last, first, rest, ?_, ht, ?_⟩
        · rw [splitOn, if_neg hb, hs]
          rfl
        · rw [List.cons_append, splitOn, if_neg hb, hst]
          rfl

theorem join_splitOn (sep : UInt8) (s : Bytes) : join [sep] (splitOn sep s) = s := by
  induction s with
  | nil => rfl
  | cons b rest ih =>
    obtain ⟨first, others, hsplit⟩ := List.exists_cons_of_ne_nil (splitOn_ne_nil sep rest)
    rw [hsplit, join_cons] at ih
    rw [splitOn, hsplit]
    split
    · next hb => rw [join_cons, List.flatMap_cons, hb, ← ih]; simp
    · rw [join_cons, List.cons_append, ih]

/-- The parts of a text hold nothing that is not in the text. -/
theorem mem_of_mem_splitOn {b : UInt8} (hpart : part ∈ splitOn sep s) (hb : b ∈ part) : b ∈ s := by
  have hrow : b ∈ join [sep] (splitOn sep s) := by
    obtain ⟨before, after, hsplit⟩ := List.append_of_mem hpart
    cases before with
    | nil => rw [hsplit, List.nil_append, join_cons]; exact List.mem_append_left _ hb
    | cons first before =>
      rw [hsplit, List.cons_append, join_cons, List.flatMap_append, List.flatMap_cons]
      simp [hb]
  rwa [join_splitOn] at hrow


theorem replaceByte_eq_join (a b : UInt8) (s : Bytes) :
    replaceByte a b s = join [b] (splitOn a s) := by
  induction s with
  | nil => rfl
  | cons c rest ih =>
    obtain ⟨first, others, hsplit⟩ := List.exists_cons_of_ne_nil (splitOn_ne_nil a rest)
    rw [hsplit, join_cons] at ih
    rw [splitOn, hsplit, replaceByte, List.map_cons]
    rw [replaceByte] at ih
    by_cases hc : c = a
    · rw [if_pos hc, if_pos hc, join_cons, List.flatMap_cons, ih]
      simp
    · rw [if_neg hc, if_neg hc, join_cons, ih, List.cons_append]

theorem dropWhile_of_head? (h : s.head? ≠ some sep) : s.dropWhile (· == sep) = s := by
  cases s with
  | nil => rfl
  | cons b rest =>
    have hb : b ≠ sep := fun hb => h (by rw [hb]; rfl)
    simp [hb]

/-- **What is put around a text is taken off again.** -/
theorem trim_pad (hhead : s.head? ≠ some sep) (hlast : s.getLast? ≠ some sep) (a b : Nat) :
    trim sep (List.replicate a sep ++ s ++ List.replicate b sep) = s := by
  have hall : ∀ n, ∀ x ∈ List.replicate n sep, (x == sep) = true := by
    intro n x hx
    rw [List.eq_of_mem_replicate hx, beq_self_eq_true]
  have hreverse : s.reverse.head? ≠ some sep := by rwa [List.head?_reverse]
  unfold trim
  rw [List.append_assoc, List.dropWhile_append_of_pos (hall a)]
  cases s with
  | nil => simp
  | cons first rest =>
    have hkept : (first :: rest ++ List.replicate b sep).head? ≠ some sep := hhead
    rw [dropWhile_of_head? hkept, List.reverse_append, List.reverse_replicate,
      List.dropWhile_append_of_pos (hall b), dropWhile_of_head? hreverse, List.reverse_reverse]

end BuildScript.Bytes
