import BuildScript.Job.Document
import BuildScript.Proofs.Text.Numerals
import Mathlib.Algebra.Order.Field.Basic
import Mathlib.Algebra.Order.Ring.Rat
import Mathlib.Data.Nat.Digits.Defs
import Mathlib.Data.Set.List
import Mathlib.Tactic.Linarith
import Mathlib.Tactic.Ring

/-!
# Numbers in documents

A document brings an integer as a signed word, as an unsigned word, or as a numeral that was kept the way it
was written. It may also bring a number as a double. What a field for a whole number makes of them is told
here by the numbers themselves.

* `Numeral`: a decimal integer as it is written; `Numeral.value`: the integer.
* `toNat?_digits`, `exists_digits`: **rows of digits are what is read as a number**, and it is their value in
  base ten.
* `numeralValue?_text`, `exists_numeral`: the same with a sign, up to the largest signed word.
* `Document.Denotes`, `Document.limit`: the integer that a value stands for, and what it has to be below.
* `toUInt?_of_denotes`, `exists_denotes`: **an integer is read exactly if it is in range**, and read as itself.
* `Binary64.value?`: the number that a double stands for. `toNat?_finite_iff`: whole numbers are read.
* `Document.Gives`: the word that a value gives. `gives_iff`: **it is the word that is read.**
-/

namespace BuildScript

/-! ## Words -/

/-- The word for an integer that is not below zero and below a limit. -/
def wordBelow (limit i : Int) : Option UInt64 :=
  if 0 ≤ i ∧ i < limit then some (UInt64.ofNat i.toNat) else none

theorem exists_wordBelow_iff {limit i : Int} :
    (∃ n, wordBelow limit i = some n) ↔ 0 ≤ i ∧ i < limit := by
  unfold wordBelow
  split
  · next h => exact iff_of_true ⟨_, rfl⟩ h
  · next h => exact iff_of_false (by rintro ⟨n, hn⟩; cases hn) h

/-- **The word for an integer is that integer.** -/
theorem wordBelow_eq_some_iff {limit i : Int} {n : UInt64} (hlimit : limit ≤ 2 ^ 64) :
    wordBelow limit i = some n ↔ (0 ≤ i ∧ i < limit) ∧ (n.toNat : Int) = i := by
  unfold wordBelow
  constructor
  · intro h
    split at h
    · next hrange =>
      cases h
      refine ⟨hrange, ?_⟩
      -- the remainder that a word keeps is the whole number, since the limit is within 64 bits
      rw [UInt64.toNat_ofNat']
      omega
    · cases h
  · rintro ⟨hrange, rfl⟩
    rw [if_pos hrange, Int.toNat_natCast, UInt64.ofNat_toNat]

theorem wordBelow_natCast (n : Nat) :
    wordBelow (2 ^ 63) n = if n < Nat.pow 2 63 then some n.toUInt64 else none := by
  have hbound : (0 ≤ (n : Int) ∧ (n : Int) < 2 ^ 63) ↔ n < Nat.pow 2 63 := by
    have hpow : Nat.pow 2 63 = 9223372036854775808 := rfl
    omega
  unfold wordBelow
  simp only [hbound, Int.toNat_natCast, Nat.toUInt64_eq]

theorem wordBelow_neg (n : Nat) : wordBelow (2 ^ 63) (-n) = if n = 0 then some 0 else none := by
  have hbound : (0 ≤ -(n : Int) ∧ -(n : Int) < 2 ^ 63) ↔ n = 0 := by omega
  unfold wordBelow
  simp only [hbound]
  split
  · next hzero =>
    rw [hzero]
    rfl
  · rfl

/-! ## Numerals -/

/-- The sign of a numeral. -/
inductive Sign where
  | plus
  | minus
  deriving Repr, DecidableEq

/-- How a sign is written. -/
def Sign.byte : Sign → UInt8
  | plus => 43
  | minus => 45

/-- A decimal integer as it is written: a sign or none, then digits, the highest one first. -/
structure Numeral where
  sign? : Option Sign
  digits : List (Fin 10)
  digits_ne_nil : digits ≠ []

namespace Numeral

/-- How a digit is written. -/
def digitByte (d : Fin 10) : UInt8 := UInt8.ofNat (48 + d)

/-- The text of a numeral. -/
def text (w : Numeral) : Bytes := (w.sign?.map Sign.byte).toList ++ w.digits.map digitByte

/-- The number that a row of digits stands for, the highest digit first. -/
def decimal (digits : List (Fin 10)) : Nat := Nat.ofDigits 10 (digits.reverse.map Fin.val)

/-- The integer that a numeral stands for. -/
def value (w : Numeral) : Int :=
  if w.sign? = some .minus then -(decimal w.digits : Int) else decimal w.digits

/-- A numeral with some zeros before its digits. -/
def padded (w : Numeral) (zeros : Nat) : Numeral :=
  ⟨w.sign?, List.replicate zeros 0 ++ w.digits, List.append_ne_nil_of_right_ne_nil _ w.digits_ne_nil⟩

/-! ### Rows of digits -/

theorem digitByte_toNat (d : Fin 10) : (digitByte d).toNat - 48 = d := by
  revert d
  decide

theorem isDigit_digitByte (d : Fin 10) : Bytes.isDigit (digitByte d) = true := by
  revert d
  decide

theorem exists_digitByte {b : UInt8} (h : Bytes.isDigit b = true) : ∃ d, digitByte d = b := by
  unfold Bytes.isDigit at h
  rw [Bool.and_eq_true, decide_eq_true_eq, decide_eq_true_eq, UInt8.le_iff_toNat_le,
    UInt8.le_iff_toNat_le] at h
  obtain ⟨hlow, hhigh⟩ := h
  have hlow' : 48 ≤ b.toNat := hlow
  have hhigh' : b.toNat ≤ 57 := hhigh
  refine ⟨⟨b.toNat - 48, by omega⟩, ?_⟩
  have hsum : 48 + (b.toNat - 48) = b.toNat := by omega
  unfold digitByte
  rw [hsum, UInt8.ofNat_toNat]

theorem decimal_cons (d : Fin 10) (rest : List (Fin 10)) :
    decimal (d :: rest) = 10 ^ rest.length * d.val + decimal rest := by
  unfold decimal
  rw [List.reverse_cons, List.map_append, Nat.ofDigits_append, List.length_map, List.length_reverse,
    List.map_singleton, Nat.ofDigits_singleton, Nat.add_comm]

/-- Reading goes from the highest digit to the lowest: what was read so far is moved up by all that
follow. -/
theorem valueFrom_digits (digits : List (Fin 10)) :
    ∀ n, Bytes.valueFrom n (digits.map digitByte) = 10 ^ digits.length * n + decimal digits := by
  induction digits with
  | nil =>
    intro n
    simp [Bytes.valueFrom, decimal]
  | cons d rest ih =>
    intro n
    have hstep : Bytes.valueFrom n ((d :: rest).map digitByte) =
        Bytes.valueFrom (10 * n + d) (rest.map digitByte) := by
      unfold Bytes.valueFrom
      rw [List.map_cons, List.foldl_cons, digitByte_toNat]
    rw [hstep, ih, decimal_cons, List.length_cons]
    ring

/-- **A row of digits is read as its value in base ten.** -/
theorem toNat?_digits {digits : List (Fin 10)} (h : digits ≠ []) :
    Bytes.toNat? (digits.map digitByte) = some (decimal digits) := by
  have hall : (digits.map digitByte).all Bytes.isDigit = true := by
    rw [List.all_eq_true]
    intro b hb
    obtain ⟨d, -, rfl⟩ := List.mem_map.1 hb
    exact isDigit_digitByte d
  have hne : (digits.map digitByte).isEmpty = false := by
    rw [List.isEmpty_eq_false_iff, Ne, List.map_eq_nil_iff]
    exact h
  have hvalue : Bytes.valueFrom 0 (digits.map digitByte) = decimal digits := by
    rw [valueFrom_digits, Nat.mul_zero, Nat.zero_add]
  rw [Bytes.toNat?, hne, hall]
  exact congrArg some hvalue

/-- Nothing else is read as a number. -/
theorem exists_digits {s : Bytes} {n : Nat} (h : Bytes.toNat? s = some n) :
    ∃ digits : List (Fin 10), digits ≠ [] ∧ digits.map digitByte = s := by
  unfold Bytes.toNat? at h
  split at h
  · cases h
  next hrow =>
  rw [Bool.or_eq_true, not_or, Bool.not_eq_true, Bool.not_eq_true, Bool.not_eq_false',
    List.isEmpty_eq_false_iff, List.all_eq_true] at hrow
  obtain ⟨hne, hall⟩ := hrow
  -- byte by byte the text comes from digits, so it comes from a row of them
  have hrange : s ∈ Set.range (List.map digitByte) := by
    rw [Set.range_list_map]
    intro b hb
    exact exists_digitByte (hall b hb)
  obtain ⟨digits, rfl⟩ := hrange
  refine ⟨digits, ?_, rfl⟩
  rintro rfl
  exact hne rfl

/-! ### Signs -/

/-- No digit is a sign. -/
theorem head?_digits_ne (digits : List (Fin 10)) (sign : Sign) :
    (digits.map digitByte).head? ≠ some sign.byte := by
  intro h
  rw [List.head?_map, Option.map_eq_some_iff] at h
  obtain ⟨d, -, hd⟩ := h
  have hdigit := isDigit_digitByte d
  rw [hd] at hdigit
  cases sign <;> cases hdigit

/-- **A numeral is read as the integer that it stands for**, if that is a signed word and not below zero. -/
theorem numeralValue?_text (w : Numeral) :
    Document.numeralValue? w.text = wordBelow (2 ^ 63) w.value := by
  obtain ⟨sign?, digits, hne⟩ := w
  have hread := toNat?_digits hne
  have hunsigned : (Bytes.toNat? (digits.map digitByte)).bind
      (fun n => if n < Nat.pow 2 63 then some n.toUInt64 else none) =
        wordBelow (2 ^ 63) (decimal digits) := by
    rw [hread, Option.bind_some, wordBelow_natCast]
  cases sign? with
  | none =>
    -- the first byte is a digit, so neither of the forms with a sign applies
    unfold Document.numeralValue?
    dsimp only
    split
    · next rest htext => exact absurd (congrArg List.head? htext) (head?_digits_ne digits .plus)
    · next rest htext => exact absurd (congrArg List.head? htext) (head?_digits_ne digits .minus)
    · exact hunsigned
  | some sign =>
    cases sign with
    | plus => exact hunsigned
    | minus =>
      have hvalue : value ⟨some .minus, digits, hne⟩ = -(decimal digits : Int) := rfl
      show (Bytes.toNat? (digits.map digitByte)).bind _ = _
      rw [hread, Option.bind_some, hvalue, wordBelow_neg]

/-- Nothing else is read. -/
theorem exists_numeral {s : Bytes} {n : UInt64} (h : Document.numeralValue? s = some n) :
    ∃ w : Numeral, w.text = s := by
  have hdigits : ∀ {t : Bytes} {f : Nat → Option UInt64}, (Bytes.toNat? t).bind f = some n →
      ∃ digits : List (Fin 10), digits ≠ [] ∧ digits.map digitByte = t := by
    intro t f ht
    obtain ⟨k, hk, -⟩ := Option.bind_eq_some_iff.1 ht
    exact exists_digits hk
  unfold Document.numeralValue? at h
  dsimp only at h
  split at h
  · obtain ⟨digits, hne, rfl⟩ := hdigits h
    exact ⟨⟨some .plus, digits, hne⟩, rfl⟩
  · obtain ⟨digits, hne, rfl⟩ := hdigits h
    exact ⟨⟨some .minus, digits, hne⟩, rfl⟩
  · obtain ⟨digits, hne, rfl⟩ := hdigits h
    exact ⟨⟨none, digits, hne⟩, rfl⟩

theorem isDigit_of_mem_text {w : Numeral} {b : UInt8} (h : b ∈ w.text) :
    (∃ sign : Sign, b = sign.byte) ∨ Bytes.isDigit b = true := by
  unfold text at h
  rcases List.mem_append.1 h with h | h
  · rw [Option.mem_toList, Option.map_eq_some_iff] at h
    obtain ⟨sign, -, rfl⟩ := h
    exact Or.inl ⟨sign, rfl⟩
  · obtain ⟨d, -, rfl⟩ := List.mem_map.1 h
    exact Or.inr (isDigit_digitByte d)

theorem value_padded (w : Numeral) (zeros : Nat) : (w.padded zeros).value = w.value := by
  have hdecimal : decimal (List.replicate zeros 0 ++ w.digits) = decimal w.digits := by
    unfold decimal
    rw [List.reverse_append, List.reverse_replicate, List.map_append, List.map_replicate]
    exact Nat.ofDigits_append_replicate_zero _
  unfold value padded
  rw [hdecimal]

end Numeral

/-- One more than the greatest signed word. -/
def tooLarge : Numeral := ⟨none, [9, 2, 2, 3, 3, 7, 2, 0, 3, 6, 8, 5, 4, 7, 7, 5, 8, 0, 8], by decide⟩

/-! ## Values -/

namespace Document

/-- The integer that a value stands for, if it is of one of the kinds for integers. -/
inductive Denotes : Document → Int → Prop where
  | integer (i : Int64) : Denotes (integer i) i.toInt
  | natural (n : UInt64) : Denotes (natural n) n.toNat
  | numeral (w : Numeral) : Denotes (numeral w.text) w.value

/-- Whether a value is of one of the kinds for integers. -/
def isIntegral : Document → Bool
  | integer _ | natural _ | numeral _ => true
  | _ => false

/-- What the integer that a value stands for has to be below: numerals are read as signed words. -/
def limit : Document → Int
  | natural _ => 2 ^ 64
  | _ => 2 ^ 63

/-- An integer that can be read from a value. -/
def InRange (value : Document) (i : Int) : Prop := 0 ≤ i ∧ i < value.limit

theorem limit_le (value : Document) : value.limit ≤ 2 ^ 64 := by
  unfold limit
  split <;> decide

variable {value : Document} {i : Int} {n : UInt64}

theorem inRange_integer (i : Int64) : InRange (integer i) i.toInt ↔ 0 ≤ i.toInt :=
  and_iff_left i.toInt_lt

theorem inRange_natural (n : UInt64) : InRange (natural n) n.toNat := by
  have hhigh := n.toNat_lt
  have hlimit : limit (natural n) = 2 ^ 64 := rfl
  unfold InRange
  omega

/-- **What is read of a value that stands for an integer.** -/
theorem toUInt?_of_denotes (h : value.Denotes i) : value.toUInt? = wordBelow value.limit i := by
  cases h with
  | integer i =>
    have hsign : 0 ≤ i ↔ InRange (integer i) i.toInt := by
      rw [inRange_integer, Int64.le_iff_toInt_le, Int64.toInt_zero]
    show (if 0 ≤ i then some i.toUInt64 else none) = _
    -- a signed word and the unsigned one with the same bits are one number only from zero on
    by_cases hi : 0 ≤ i
    · have hword : (i.toUInt64.toNat : Int) = i.toInt := by
        rw [Int64.toNat_toUInt64_of_le hi, Int64.cast_toNatClampNeg _ hi]
      have hread := (wordBelow_eq_some_iff (limit_le (integer i))).2 ⟨hsign.1 hi, hword⟩
      rw [if_pos hi, hread]
    · rw [if_neg hi, wordBelow]
      exact (if_neg (hsign.not.1 hi)).symm
  | natural n =>
    have hword : wordBelow (limit (natural n)) n.toNat = some n := by
      rw [wordBelow_eq_some_iff (limit_le _)]
      exact ⟨inRange_natural n, rfl⟩
    exact hword.symm
  | numeral w => exact w.numeralValue?_text

/-- Nothing else is read. -/
theorem exists_denotes (hkind : value.isIntegral = true) (h : value.toUInt? = some n) :
    ∃ i, value.Denotes i := by
  cases value with
  | integer i => exact ⟨_, .integer i⟩
  | natural n => exact ⟨_, .natural n⟩
  | numeral written =>
    obtain ⟨w, rfl⟩ := Numeral.exists_numeral h
    exact ⟨_, .numeral w⟩
  | _ => cases hkind

/-- **An integer in range is read as itself**, and one out of range is not read. -/
theorem toUInt?_iff_of_denotes (h : value.Denotes i) :
    value.toUInt? = some n ↔ value.InRange i ∧ (n.toNat : Int) = i := by
  rw [toUInt?_of_denotes h]
  exact wordBelow_eq_some_iff value.limit_le

theorem toUInt?_eq_some_iff (hkind : value.isIntegral = true) :
    value.toUInt? = some n ↔ value.Denotes n.toNat ∧ value.InRange n.toNat := by
  constructor
  · intro hread
    obtain ⟨i, hi⟩ := exists_denotes hkind hread
    obtain ⟨hrange, rfl⟩ := (toUInt?_iff_of_denotes hi).1 hread
    exact ⟨hi, hrange⟩
  · rintro ⟨hdenotes, hrange⟩
    exact (toUInt?_iff_of_denotes hdenotes).2 ⟨hrange, rfl⟩

theorem exists_toUInt?_of_denotes (h : value.Denotes i) :
    (∃ n, value.toUInt? = some n) ↔ value.InRange i := by
  rw [toUInt?_of_denotes h]
  exact exists_wordBelow_iff

/-- **A value is read exactly if it stands for an integer in range.** -/
theorem exists_toUInt?_iff (hkind : value.isIntegral = true) :
    (∃ n, value.toUInt? = some n) ↔ ∃ i, value.Denotes i ∧ value.InRange i := by
  constructor
  · rintro ⟨n, hread⟩
    exact ⟨n.toNat, (toUInt?_eq_some_iff hkind).1 hread⟩
  · rintro ⟨i, hdenotes, hrange⟩
    exact (exists_toUInt?_of_denotes hdenotes).2 hrange

/-- Zeros before a numeral count for nothing. -/
theorem toUInt?_padded (w : Numeral) (zeros : Nat) :
    (numeral (w.padded zeros).text).toUInt? = (numeral w.text).toUInt? := by
  have hpadded := w.value_padded zeros
  show numeralValue? _ = numeralValue? _
  rw [Numeral.numeralValue?_text, Numeral.numeralValue?_text, hpadded]

/-- A point and an exponent are no part of an integer. -/
theorem toUInt?_of_mem {s : Bytes} (h : 46 ∈ s ∨ 101 ∈ s ∨ 69 ∈ s) : (numeral s).toUInt? = none := by
  cases hread : (numeral s).toUInt? with
  | none => rfl
  | some n =>
    obtain ⟨w, rfl⟩ := Numeral.exists_numeral hread
    have hother : ∀ b ∈ w.text, b ≠ 46 ∧ b ≠ 101 ∧ b ≠ 69 := by
      intro b hb
      rcases Numeral.isDigit_of_mem_text hb with ⟨sign, rfl⟩ | hdigit
      · cases sign <;> decide
      · refine ⟨?_, ?_, ?_⟩ <;> rintro rfl <;> cases hdigit
    rcases h with h | h | h
    · exact absurd rfl (hother 46 h).1
    · exact absurd rfl (hother 101 h).2.1
    · exact absurd rfl (hother 69 h).2.2

end Document

/-! ## Doubles -/

namespace Binary64

/-- The number that a double stands for. -/
def value? : Binary64 → Option ℚ
  | finite negative mantissa exponent => some ((if negative then -1 else 1) * (mantissa * 2 ^ exponent))
  | nan | infinity _ => none

/-- The word for a whole number. One that does not fit into 64 bits gives the word with the highest bit
only. -/
def wordOf (m : Nat) : UInt64 := if m < Nat.pow 2 64 then m.toUInt64 else 0x8000000000000000

variable {negative : Bool} {mantissa m k : Nat} {exponent : Int} {x : Binary64} {n : UInt64}

theorem wordOf_toNat (n : UInt64) : wordOf n.toNat = n := by
  unfold wordOf
  rw [if_pos n.toNat_lt, Nat.toUInt64_eq, UInt64.ofNat_toNat]

theorem toNat_wordOf (h : m < 2 ^ 64) : (wordOf m).toNat = m := by
  have hword : wordOf m = m.toUInt64 := if_pos h
  rw [hword, Nat.toUInt64_eq, UInt64.toNat_ofNat_of_lt' h]

theorem wordOf_wide (h : 2 ^ 64 ≤ m) : wordOf m = 0x8000000000000000 := if_neg (Nat.not_lt.2 h)

theorem scaled_ofNat_eq_iff :
    (mantissa : ℚ) * 2 ^ (Int.ofNat k) = m ↔ mantissa * Nat.pow 2 k = m := by
  rw [Int.ofNat_eq_natCast, zpow_natCast]
  exact_mod_cast Iff.rfl

/-- Divided by a power of two, a whole number is whole exactly if nothing remains. -/
theorem scaled_negSucc_eq_iff :
    (mantissa : ℚ) * 2 ^ (Int.negSucc k) = m ↔
      mantissa % Nat.pow 2 (k + 1) = 0 ∧ mantissa / Nat.pow 2 (k + 1) = m := by
  have hpos : 0 < Nat.pow 2 (k + 1) := Nat.pow_pos Nat.two_pos
  have hcast : (2 : ℚ) ^ (k + 1) = (Nat.pow 2 (k + 1) : Nat) := by
    rw [Nat.pow_eq, Nat.cast_pow, Nat.cast_ofNat]
  have hne : ((Nat.pow 2 (k + 1) : Nat) : ℚ) ≠ 0 := Nat.cast_ne_zero.2 hpos.ne'
  rw [zpow_negSucc, hcast, mul_inv_eq_iff_eq_mul₀ hne, ← Nat.cast_mul, Nat.cast_inj]
  constructor
  · rintro rfl
    exact ⟨Nat.mul_mod_left _ _, Nat.mul_div_cancel _ hpos⟩
  · rintro ⟨hmod, rfl⟩
    exact (Nat.div_mul_cancel (Nat.dvd_of_mod_eq_zero hmod)).symm

/-- A double below zero is none of the numbers from zero on. -/
theorem value?_below (h : (negative && mantissa != 0) = true) (m : Nat) :
    (finite negative mantissa exponent).value? ≠ some (m : ℚ) := by
  rw [Bool.and_eq_true, bne_iff_ne] at h
  obtain ⟨rfl, hmantissa⟩ := h
  have hpos : (0 : ℚ) < mantissa * 2 ^ exponent :=
    mul_pos (Nat.cast_pos.2 (Nat.pos_of_ne_zero hmantissa)) (zpow_pos two_pos exponent)
  intro hm
  have hvalue : -1 * ((mantissa : ℚ) * 2 ^ exponent) = m := Option.some.inj hm
  have hnat : (0 : ℚ) ≤ m := Nat.cast_nonneg m
  linarith

/-- The sign of a zero counts for nothing. -/
theorem value?_not_below (h : ¬ (negative && mantissa != 0) = true) :
    (finite negative mantissa exponent).value? = some ((mantissa : ℚ) * 2 ^ exponent) := by
  cases negative with
  | false => exact congrArg some (one_mul _)
  | true =>
    have hzero : mantissa = 0 := by simpa using h
    simp [value?, hzero]

/-- **What is read of a finite double** is the whole number that it stands for. -/
theorem toNat?_finite_iff : (finite negative mantissa exponent).toNat? = some n ↔
    ∃ m : Nat, (finite negative mantissa exponent).value? = some (m : ℚ) ∧ wordOf m = n := by
  unfold toNat?
  dsimp only
  split
  · next hsign =>
    refine iff_of_false (by simp) ?_
    rintro ⟨m, hm, -⟩
    exact value?_below hsign m hm
  · next hsign =>
    simp only [value?_not_below hsign, Option.some.injEq]
    cases exponent with
    | ofNat k =>
      simp only [scaled_ofNat_eq_iff, Option.map_some, Option.some.injEq, exists_eq_left']
      rfl
    | negSucc k =>
      simp only [scaled_negSucc_eq_iff]
      split
      · next hmod =>
        simp only [hmod, true_and, Option.map_some, Option.some.injEq, exists_eq_left']
        rfl
      · next hmod =>
        -- a fraction is left
        refine iff_of_false (by simp) ?_
        rintro ⟨m, ⟨hwhole, -⟩, -⟩
        exact hmod hwhole

/-- **What is read of a double**: the whole number that it stands for, and the highest bit for the infinity
above zero. -/
theorem toNat?_eq_some_iff : x.toNat? = some n ↔
    (∃ m : Nat, x.value? = some (m : ℚ) ∧ wordOf m = n) ∨ x = infinity false ∧ n = 0x8000000000000000 := by
  cases x with
  | nan => simp [toNat?, value?]
  | infinity negative =>
    cases negative with
    | true => simp [toNat?, value?]
    | false => simp [toNat?, value?, eq_comm]
  | finite negative mantissa exponent =>
    rw [toNat?_finite_iff]
    simp

end Binary64

namespace Document

/-- The word that a value gives, if it is a whole number from zero on. -/
inductive Gives : Document → UInt64 → Prop where
  /-- An integer in range gives itself. -/
  | integral {value : Document} {n : UInt64} (h : value.Denotes n.toNat) (hrange : value.InRange n.toNat) :
      Gives value n
  /-- So does a double that is a whole number. -/
  | whole {x : Binary64} {n : UInt64} (h : x.value? = some (n.toNat : ℚ)) : Gives (real x) n
  /-- A double that is a whole number of more than 64 bits gives the highest bit. -/
  | wide {x : Binary64} {m : Nat} (h : x.value? = some (m : ℚ)) (hwide : 2 ^ 64 ≤ m) :
      Gives (real x) 0x8000000000000000
  /-- So does the infinity above zero. -/
  | infinite : Gives (real (.infinity false)) 0x8000000000000000

variable {value : Document} {n m : UInt64} {x : Binary64}

theorem gives_real_iff : (real x).Gives n ↔ x.toNat? = some n := by
  rw [Binary64.toNat?_eq_some_iff]
  constructor
  · intro h
    cases h with
    | integral h _ => cases h
    | whole h => exact .inl ⟨n.toNat, h, Binary64.wordOf_toNat n⟩
    | wide h hwide => exact .inl ⟨_, h, Binary64.wordOf_wide hwide⟩
    | infinite => exact .inr ⟨rfl, rfl⟩
  · rintro (⟨m, h, rfl⟩ | ⟨rfl, rfl⟩)
    · by_cases hm : m < 2 ^ 64
      · rw [← Binary64.toNat_wordOf hm] at h
        exact .whole h
      · rw [Nat.not_lt] at hm
        rw [Binary64.wordOf_wide hm]
        exact .wide h hm
    · exact .infinite

theorem gives_integral_iff (hkind : value.isIntegral = true) :
    value.Gives n ↔ value.Denotes n.toNat ∧ value.InRange n.toNat := by
  constructor
  · intro h
    cases h with
    | integral h hrange => exact ⟨h, hrange⟩
    | _ => cases hkind
  · rintro ⟨h, hrange⟩
    exact .integral h hrange

/-- **The word that a value gives** is the word that is read of it. -/
theorem gives_iff : value.Gives n ↔ value.toUInt? = some n := by
  by_cases hkind : value.isIntegral = true
  · rw [gives_integral_iff hkind, toUInt?_eq_some_iff hkind]
  · cases value with
    | real x => exact gives_real_iff
    | integer i => exact absurd rfl hkind
    | natural k => exact absurd rfl hkind
    | numeral s => exact absurd rfl hkind
    | _ =>
      -- of any other kind nothing is read, and no integer is denoted
      refine iff_of_false ?_ (fun h => by cases h)
      rintro ⟨h⟩
      cases h

theorem Gives.unique (hn : value.Gives n) (hm : value.Gives m) : n = m :=
  Option.some.inj ((gives_iff.1 hn).symm.trans (gives_iff.1 hm))

end Document

end BuildScript
