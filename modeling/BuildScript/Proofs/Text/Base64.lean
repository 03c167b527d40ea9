import BuildScript.Text.Base64
import Mathlib.Data.List.Basic

/-!
# Base 64 is undone by decoding

* `decode?_encode`: **decoding gives back the bytes that were encoded.**
-/

namespace BuildScript.Base64

theorem value?_digit : ∀ n < 64, value? (digit n) = some n := by decide

/-- A digit is not the padding, and no line end. -/
theorem digit_ne : ∀ n < 64, digit n ≠ 61 ∧ digit n ≠ 10 ∧ digit n ≠ 13 := by decide

/-- Two digits before the padding are read as one byte. -/
theorem decodeDigits?_two {x y : Nat} (hx : x < 64) (hy : y < 64) :
    decodeDigits? [digit x, digit y, 61, 61] = some [(x * 4 + y / 16).toUInt8] := by
  simp only [decodeDigits?, value?_digit x hx, value?_digit y hy]; rfl

/-- Three digits before the padding are read as two bytes. -/
theorem decodeDigits?_three {x y z : Nat} (hx : x < 64) (hy : y < 64) (hz : z < 64) :
    decodeDigits? [digit x, digit y, digit z, 61] =
      some [(x * 4 + y / 16).toUInt8, (y % 16 * 16 + z / 4).toUInt8] := by
  rw [decodeDigits?]
  · simp only [value?_digit x hx, value?_digit y hy, value?_digit z hz]; rfl
  · exact (digit_ne z hz).1

/-- The digits of a full group are read as its three bytes. -/
theorem decodeDigits?_four {x y z w : Nat} (hx : x < 64) (hy : y < 64) (hz : z < 64) (hw : w < 64)
    {rest tail : Bytes} (h : decodeDigits? rest = some tail) :
    decodeDigits? (digit x :: digit y :: digit z :: digit w :: rest) =
      some ((x * 4 + y / 16).toUInt8 :: (y % 16 * 16 + z / 4).toUInt8 ::
        (z % 4 * 64 + w).toUInt8 :: tail) := by
  have hpad := (digit_ne w hw).1
  rw [decodeDigits?]
  · simp only [value?_digit x hx, value?_digit y hy, value?_digit z hz, value?_digit w hw, h]; rfl
  · rintro - h61 -; exact hpad h61
  · rintro h61 -; exact hpad h61

theorem decodeDigits?_encode (data : Bytes) : decodeDigits? (encode data) = some data := by
  fun_induction encode data with
  | case1 => rfl
  | case2 a =>
    have ha := a.toNat_lt
    have h1 : a.toNat / 4 * 4 + a.toNat % 4 * 16 / 16 = a.toNat := by omega
    rw [decodeDigits?_two (by omega) (by omega), h1]
    simp
  | case3 a b =>
    have ha := a.toNat_lt
    have hb := b.toNat_lt
    have h1 : a.toNat / 4 * 4 + (a.toNat % 4 * 16 + b.toNat / 16) / 16 = a.toNat := by omega
    have h2 : (a.toNat % 4 * 16 + b.toNat / 16) % 16 * 16 + b.toNat % 16 * 4 / 4 = b.toNat := by omega
    rw [decodeDigits?_three (by omega) (by omega) (by omega), h1, h2]
    simp
  | case4 a b c rest ih =>
    have ha := a.toNat_lt
    have hb := b.toNat_lt
    have hc := c.toNat_lt
    have h1 : a.toNat / 4 * 4 + (a.toNat % 4 * 16 + b.toNat / 16) / 16 = a.toNat := by omega
    have h2 : (a.toNat % 4 * 16 + b.toNat / 16) % 16 * 16 + (b.toNat % 16 * 4 + c.toNat / 64) / 4
        = b.toNat := by omega
    have h3 : (b.toNat % 16 * 4 + c.toNat / 64) % 4 * 64 + c.toNat % 64 = c.toNat := by omega
    rw [decodeDigits?_four (by omega) (by omega) (by omega) (by omega) ih, h1, h2, h3]
    simp

/-- Encoded texts hold no line end. -/
theorem encode_noLineEnd (data : Bytes) : ∀ d ∈ encode data, (d != 10 && d != 13) = true := by
  have hdigit : ∀ n < 64, (digit n != 10 && digit n != 13) = true := by decide
  fun_induction encode data with
  | case1 => simp
  | case2 a =>
    have ha := a.toNat_lt
    simp [-Bool.and_eq_true, hdigit _ (show a.toNat / 4 < 64 by omega),
      hdigit _ (show a.toNat % 4 * 16 < 64 by omega)]
  | case3 a b =>
    have ha := a.toNat_lt
    have hb := b.toNat_lt
    simp [-Bool.and_eq_true, hdigit _ (show a.toNat / 4 < 64 by omega),
      hdigit _ (show a.toNat % 4 * 16 + b.toNat / 16 < 64 by omega),
      hdigit _ (show b.toNat % 16 * 4 < 64 by omega)]
  | case4 a b c rest ih =>
    have ha := a.toNat_lt
    have hb := b.toNat_lt
    have hc := c.toNat_lt
    intro d hd
    simp only [List.mem_cons] at hd
    rcases hd with rfl | rfl | rfl | rfl | hd
    · exact hdigit _ (by omega)
    · exact hdigit _ (by omega)
    · exact hdigit _ (by omega)
    · exact hdigit _ (by omega)
    · exact ih d hd

/-- **Decoding gives back what was encoded.** -/
theorem decode?_encode (data : Bytes) : decode? (encode data) = some data := by
  rw [decode?, List.filter_eq_self.2 (encode_noLineEnd data), decodeDigits?_encode]

end BuildScript.Base64
