import BuildScript.Proofs.Text.Parts
import BuildScript.Proofs.Text.Pieces
import BuildScript.Tree.PathText

/-!
# Texts cut at an ASCII byte

A character of UTF-8 that is not ASCII has no ASCII byte in it. So a text can be cut at an ASCII byte
and put together with one, and no character is made or lost.

* `first?_append`: what the first character of a text is does not depend on what comes after an ASCII
  byte behind it.
* `pieces_append`: the pieces of a text are those before an ASCII byte, that byte, and those after it.
* `isPathText_append`, `isPathText_join`, `isPathText_splitOn`: **a text can be written into a script
  exactly if all its parts can.**
-/

namespace BuildScript

namespace Utf8

variable {b : UInt8} {s t : Bytes}

theorem isTail_of_ascii (hb : b < 0x80) : isTail b = false := by
  have hle : ¬ (0x80 : UInt8) ≤ b := UInt8.not_le.2 hb
  simp [isTail, hle]

theorem not_secondLow_le (hb : b < 0x80) (lead : UInt8) : ¬ secondLow lead ≤ b := by
  intro hle
  exact UInt8.not_le.2 hb (UInt8.le_trans (le_secondLow lead) hle)

/-- **A character ends before an ASCII byte**: with such a byte behind it, a text starts with the same
character as without, and with none if it is cut short. -/
theorem first?_append (hb : b < 0x80) (hs : s ≠ []) (t : Bytes) :
    first? (s ++ b :: t) = first? s := by
  have htail := isTail_of_ascii hb
  obtain ⟨lead, rest, rfl⟩ := List.exists_cons_of_ne_nil hs
  have hlow := not_secondLow_le hb lead
  rw [List.cons_append]
  simp only [first?]
  -- the lead byte decides how many bytes are looked at; `b` is refused as any of them
  split
  · rfl
  split
  · rfl
  split
  · rcases rest with _ | ⟨b1, rest⟩
    · simp [htail]
    · rfl
  split
  · rcases rest with _ | ⟨b1, _ | ⟨b2, rest⟩⟩
    · cases t <;> simp [hlow]
    · simp [htail]
    · rfl
  split
  · rcases rest with _ | ⟨b1, _ | ⟨b2, _ | ⟨b3, rest⟩⟩⟩
    · rcases t with _ | ⟨t1, _ | ⟨t2, t⟩⟩
      · rfl
      · rfl
      · simp [hlow]
    · cases t <;> simp [htail]
    · simp [htail]
    · rfl
  · rfl

theorem piecesFrom_some {c width : Nat} (h : first? (b :: s) = some (c, width)) :
    piecesFrom 0 (b :: s) = ⟨(b :: s).take width, some c⟩ :: piecesFrom (width - 1) s := by
  simp only [piecesFrom, h]

theorem piecesFrom_none (h : first? (b :: s) = none) :
    piecesFrom 0 (b :: s) = ⟨[b], none⟩ :: piecesFrom 0 s := by
  simp only [piecesFrom, h]

theorem piecesFrom_append (hb : b < 0x80) (t : Bytes) : ∀ skip, skip ≤ s.length →
    piecesFrom skip (s ++ b :: t) = piecesFrom skip s ++ piecesFrom 0 (b :: t) := by
  induction s with
  | nil =>
    intro skip hskip
    obtain rfl : skip = 0 := by simpa using hskip
    rw [List.nil_append, piecesFrom, List.nil_append]
  | cons x rest ih =>
    intro skip hskip
    rw [List.length_cons] at hskip
    cases skip with
    | succ skip =>
      rw [List.cons_append, piecesFrom, piecesFrom]
      exact ih skip (by omega)
    | zero =>
      have hsame := first?_append hb (List.cons_ne_nil x rest) t
      rw [List.cons_append] at hsame
      cases hfirst : first? (x :: rest) with
      | none =>
        rw [List.cons_append, piecesFrom_none (hsame.trans hfirst), piecesFrom_none hfirst,
          ih 0 (by omega), List.cons_append]
      | some found =>
        obtain ⟨c, width⟩ := found
        have hwidth := width_le hfirst
        rw [List.length_cons] at hwidth
        have htake : (x :: (rest ++ b :: t)).take width = (x :: rest).take width := by
          rw [← List.cons_append, List.take_append_of_le_length (by simpa using hwidth.2)]
        rw [List.cons_append, piecesFrom_some (hsame.trans hfirst), piecesFrom_some hfirst, htake,
          ih (width - 1) (by omega), List.cons_append]

/-- **The pieces around an ASCII byte.** -/
theorem pieces_append (hb : b < 0x80) (s t : Bytes) :
    pieces (s ++ b :: t) = pieces s ++ ⟨[b], some b.toNat⟩ :: pieces t := by
  have hfirst : first? (b :: t) = some (b.toNat, 1) := by simp [first?, hb]
  rw [pieces, piecesFrom_append hb t 0 (Nat.zero_le _), piecesFrom_some hfirst]
  rfl

theorem valid_append (hb : b < 0x80) (s t : Bytes) :
    valid (s ++ b :: t) = (valid s && valid t) := by
  rw [valid, pieces_append hb, List.all_append, List.all_cons]
  simp [valid]

end Utf8

/-! ## Texts that can be written into a script -/

variable {sep : UInt8}

theorem isPathText_iff {s : Bytes} : isPathText s = true ↔ Utf8.valid s = true ∧ 0 ∉ s := by
  simp [isPathText]

theorem isPathText_of_checkPath {operation path : Bytes} (h : checkPath operation path = .ok ()) :
    isPathText path = true := by
  by_contra hp
  simp [checkPath, hp] at h

theorem isPathText_append (hsep : sep < 0x80) (hzero : sep ≠ 0) (s t : Bytes) :
    isPathText (s ++ sep :: t) = (isPathText s && isPathText t) := by
  rw [Bool.eq_iff_iff, Bool.and_eq_true, isPathText_iff, isPathText_iff, isPathText_iff,
    Utf8.valid_append hsep, Bool.and_eq_true, List.mem_append, List.mem_cons]
  have hne : ¬ 0 = sep := fun h => hzero h.symm
  tauto

/-- **Parts that can be written can be written in a row**, and only those. -/
theorem isPathText_join (hsep : sep < 0x80) (hzero : sep ≠ 0) (parts : List Bytes) :
    isPathText (Bytes.join [sep] parts) = parts.all isPathText := by
  induction parts with
  | nil => rfl
  | cons part rest ih =>
    cases rest with
    | nil => simp [Bytes.join]
    | cons next rest =>
      rw [Bytes.join, List.append_assoc, List.singleton_append, isPathText_append hsep hzero, ih]
      rfl

theorem isPathText_splitOn (hsep : sep < 0x80) (hzero : sep ≠ 0) (s : Bytes) :
    (Bytes.splitOn sep s).all isPathText = isPathText s := by
  rw [← isPathText_join hsep hzero, Bytes.join_splitOn]

end BuildScript
