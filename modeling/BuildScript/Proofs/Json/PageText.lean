import BuildScript.Json.Write
import BuildScript.Proofs.Text.Parts
import BuildScript.Proofs.Text.Pieces

/-!
# Written texts in a web page

Whatever the texts in it hold, a written object is text itself, and a web page can hold it as it is.

* `IsPageText`: a text without stray bytes, and without the characters that are written by their number
  other than line feeds.
* `isPageText_quotePiece`, `isPageText_fields`: **one written character is such a text, and so is a
  written object.**
-/

namespace BuildScript.Json

open Utf8 (Piece pieces)

/-- A text that can stand in a web page: all of it is characters, and of those that are written by their
number there are only line feeds. -/
def IsPageText (s : Bytes) : Prop :=
  ∀ p ∈ pieces s, ∃ c, p.scalar? = some c ∧ (c = 10 ∨ isNumbered c = false)

variable {s t : Bytes}

theorem IsPageText.valid (h : IsPageText s) : Utf8.valid s = true := by
  rw [Utf8.valid, List.all_eq_true]
  intro p hp
  obtain ⟨c, hc, -⟩ := h p hp
  rw [hc]
  rfl

theorem IsPageText.append (hs : IsPageText s) (ht : IsPageText t) : IsPageText (s ++ t) := by
  intro p hp
  rw [Utf8.pieces_append_of_valid hs.valid] at hp
  rcases List.mem_append.1 hp with hp | hp
  · exact hs p hp
  · exact ht p hp

theorem IsPageText.flatMap {α : Type} {xs : List α} {f : α → Bytes} (h : ∀ x ∈ xs, IsPageText (f x)) :
    IsPageText (xs.flatMap f) := by
  induction xs with
  | nil => exact nofun
  | cons x xs ih =>
    obtain ⟨hx, hxs⟩ := List.forall_mem_cons.1 h
    exact hx.append (ih hxs)

theorem IsPageText.join {sep : Bytes} {parts : List Bytes} (hsep : IsPageText sep)
    (h : ∀ part ∈ parts, IsPageText part) : IsPageText (Bytes.join sep parts) := by
  cases parts with
  | nil => exact nofun
  | cons first rest =>
    obtain ⟨hfirst, hrest⟩ := List.forall_mem_cons.1 h
    rw [Bytes.join_cons]
    exact hfirst.append (.flatMap fun part hpart => hsep.append (hrest part hpart))

/-- An ASCII byte that a web page can hold. -/
def isPageByte (b : UInt8) : Bool := b < 0x80 && (b = 10 || !isNumbered b.toNat)

theorem isPageText_of_ascii (h : s.all isPageByte = true) : IsPageText s := by
  rw [List.all_eq_true] at h
  intro p hp
  have hmem : ∀ b ∈ p.raw, b ∈ s := by
    intro b hb
    rw [← Utf8.pieces_raw s]
    exact List.mem_flatMap.2 ⟨p, hp, hb⟩
  cases hform : Utf8.wellFormed_pieces hp with
  | ascii b hb =>
    have hbyte := h b (hmem b List.mem_cons_self)
    simp only [isPageByte, Bool.and_eq_true, Bool.or_eq_true, decide_eq_true_eq,
      Bool.not_eq_true'] at hbyte
    refine ⟨b.toNat, rfl, hbyte.2.imp (fun hfeed => ?_) id⟩
    rw [hfeed]
    rfl
  | wide b tail code? hb htail hcode =>
    have hbyte := h b (hmem b List.mem_cons_self)
    simp only [isPageByte, Bool.and_eq_true, decide_eq_true_eq] at hbyte
    exact absurd hbyte.1 (UInt8.not_lt.2 hb)

/-! ## What is written -/

theorem isPageByte_letterEscape? {n : Nat} {c : UInt8} (h : letterEscape? n = some c) :
    isPageByte c = true := by
  unfold letterEscape? at h
  split at h <;> cases h <;> decide

theorem isPageByte_hexDigit : ∀ n < 16, isPageByte (Bytes.hexDigit n) = true := by decide

theorem isPageByte_hexFixed (width n : Nat) : (Bytes.hexFixed width n).all isPageByte = true := by
  induction width generalizing n with
  | zero => rfl
  | succ width ih =>
    rw [Bytes.hexFixed, List.all_append, ih, List.all_cons,
      isPageByte_hexDigit _ (Nat.mod_lt _ (by decide))]
    rfl

/-- **One written character.** -/
theorem isPageText_quotePiece {p : Piece} (hp : p ∈ pieces s) : IsPageText (quotePiece p) := by
  unfold quotePiece
  cases hc : p.scalar? with
  | none =>
    have hpieces : pieces Utf8.replacement = [⟨Utf8.replacement, some 0xFFFD⟩] := by decide
    intro q hq
    rw [hpieces, List.mem_singleton] at hq
    exact ⟨0xFFFD, by rw [hq], Or.inr (by decide)⟩
  | some c =>
    dsimp only
    split
    · next letter hletter =>
      apply isPageText_of_ascii
      rw [List.all_cons, List.all_cons, isPageByte_letterEscape? hletter]
      decide
    · split
      · apply isPageText_of_ascii
        rw [List.all_cons, List.all_cons, isPageByte_hexFixed]
        decide
      · next hnumber =>
        -- the character stands for itself
        have hpiece := (Utf8.isCharacter_pieces hp (by rw [hc]; rfl)).2 []
        intro q hq
        rw [List.append_nil] at hpiece
        rw [hpiece] at hq
        rcases List.mem_cons.1 hq with rfl | hq
        · exact ⟨c, hc, Or.inr (Bool.not_eq_true _ ▸ hnumber)⟩
        · cases hq

theorem isPageText_quote (s : Bytes) : IsPageText (quote s) := by
  have hmark : IsPageText [34] := isPageText_of_ascii (by decide)
  have hbody : IsPageText ((pieces s).flatMap quotePiece) :=
    .flatMap fun p hp => isPageText_quotePiece hp
  exact hmark.append (hbody.append hmark)

/-- **A written object can stand in a web page.** -/
theorem isPageText_fields (members : List (Bytes × Bytes)) : IsPageText (fields members) := by
  have hfield : ∀ key value, IsPageText (field key value) := fun key value =>
    (((isPageText_of_ascii (by decide)).append (isPageText_quote key)).append
      (isPageText_of_ascii (by decide))).append (isPageText_quote value)
  refine ((isPageText_of_ascii (by decide)).append (.join (isPageText_of_ascii (by decide)) ?_)).append
    (isPageText_of_ascii (by decide))
  intro part hpart
  obtain ⟨member, -, rfl⟩ := List.mem_map.1 hpart
  exact hfield member.1 member.2

end BuildScript.Json
