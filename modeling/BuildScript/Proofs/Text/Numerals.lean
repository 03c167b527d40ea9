import BuildScript.Text.Bytes
import Mathlib.Data.List.Basic

/-!
# Numerals

A numeral is made from its last digit to its first, and read from its first digit to its last.

* `mem_ofNat`, `mem_ofNatHex`: what numerals are made of.
* `valueIn_numeralAux`: a numeral has the value of its number, in every base.
* `ofNatHex_inj`: **numbers are told apart by their hexadecimal numerals.**
* `toNat?_ofNat`: **a decimal numeral is read as the number that it was made from.**
-/

namespace BuildScript.Bytes

variable {b : UInt8} {base limit n : Nat} {tail : Bytes}

theorem mem_numeralAux (hbase : 0 < base) (h : b ∈ numeralAux base limit n tail) :
    (∃ d < base, b = hexDigit d) ∨ b ∈ tail := by
  induction limit generalizing n tail with
  | zero => exact Or.inr h
  | succ limit ih =>
    rw [numeralAux] at h
    split at h
    · next hn =>
      rcases List.mem_cons.1 h with rfl | h
      · exact Or.inl ⟨n, hn, rfl⟩
      · exact Or.inr h
    · rcases ih h with h | h
      · exact Or.inl h
      · rcases List.mem_cons.1 h with rfl | h
        · exact Or.inl ⟨_, Nat.mod_lt _ hbase, rfl⟩
        · exact Or.inr h

theorem mem_ofNatHex (h : b ∈ ofNatHex n) : ∃ d < 16, b = hexDigit d := by
  rcases mem_numeralAux (by decide) h with h | h
  · exact h
  · cases h

theorem mem_ofNat (h : b ∈ ofNat n) : ∃ d < 10, b = hexDigit d := by
  rcases mem_numeralAux (by decide) h with h | h
  · exact h
  · cases h

theorem numeralAux_ne_nil (h : 0 < limit ∨ tail ≠ []) : numeralAux base limit n tail ≠ [] := by
  induction limit generalizing n tail with
  | zero =>
    have htail : tail ≠ [] := h.resolve_left (Nat.lt_irrefl 0)
    exact htail
  | succ limit ih =>
    rw [numeralAux]
    split
    · exact List.cons_ne_nil _ _
    · apply ih
      exact Or.inr (List.cons_ne_nil _ _)

theorem ofNat_ne_nil (n : Nat) : ofNat n ≠ [] := numeralAux_ne_nil (Or.inl (Nat.succ_pos n))

/-- The value of a row of digits that goes on from a number, in a base and with values for the digits. -/
def valueIn (base : Nat) (value : UInt8 → Nat) (n : Nat) (digits : Bytes) : Nat :=
  digits.foldl (fun n b => base * n + value b) n

/-- The digits in front of a row have the value of the number: dividing by the base takes off the last
one. -/
theorem valueIn_numeralAux {value : UInt8 → Nat} (hbase : 1 < base)
    (hvalue : ∀ d < base, value (hexDigit d) = d) (h : n < limit) :
    valueIn base value 0 (numeralAux base limit n tail) = valueIn base value n tail := by
  have hcons : ∀ (k d : Nat) (digits : Bytes), d < base →
      valueIn base value k (hexDigit d :: digits) = valueIn base value (base * k + d) digits := by
    intro k d digits hd
    show valueIn base value (base * k + value (hexDigit d)) digits = _
    rw [hvalue d hd]
  induction limit generalizing n tail with
  | zero => exact absurd h (Nat.not_lt_zero n)
  | succ limit ih =>
    rw [numeralAux]
    split
    · next hn => rw [hcons 0 n tail hn, Nat.mul_zero, Nat.zero_add]
    · next hn =>
      have hless : n / base < limit := by
        have hsmaller : n / base < n := Nat.div_lt_self (by omega) hbase
        omega
      rw [ih hless, hcons _ _ _ (Nat.mod_lt _ (by omega)), Nat.div_add_mod]

/-- The value of a row of decimal digits that goes on from a number. -/
def valueFrom (n : Nat) (digits : Bytes) : Nat := digits.foldl (fun n b => 10 * n + (b.toNat - 48)) n

theorem valueFrom_numeralAux (h : n < limit) : valueFrom 0 (numeralAux 10 limit n tail) = valueFrom n tail :=
  valueIn_numeralAux (by decide) (by decide) h

/-- **Numbers are told apart by their hexadecimal numerals.** -/
theorem ofNatHex_inj {m : Nat} (h : ofNatHex n = ofNatHex m) : n = m := by
  have hread : ∀ k, valueIn 16 (fun b => (hexValue? b).getD 0) 0 (ofNatHex k) = k := fun k =>
    valueIn_numeralAux (by decide) (by decide) (Nat.lt_succ_self k)
  rw [← hread n, h, hread]

/-- **A decimal numeral is read as the number that it was made from.** -/
theorem toNat?_ofNat (n : Nat) : toNat? (ofNat n) = some n := by
  have hdigit : ∀ d < 10, isDigit (hexDigit d) = true := by decide
  have hall : (ofNat n).all isDigit = true := by
    rw [List.all_eq_true]
    intro b hb
    obtain ⟨d, hd, rfl⟩ := mem_ofNat hb
    exact hdigit d hd
  have hvalue : valueFrom 0 (ofNat n) = n := valueFrom_numeralAux (Nat.lt_succ_self n)
  have hne : (ofNat n).isEmpty = false := List.isEmpty_eq_false_iff.2 (ofNat_ne_nil n)
  rw [toNat?, hne, hall]
  exact congrArg some hvalue

end BuildScript.Bytes
