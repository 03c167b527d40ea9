import BuildScript.Text.Utf8
import Mathlib.Data.List.Basic

/-!
# The pieces of a byte text

A text is cut into characters and stray bytes, and whoever writes a text piece by piece has to know
what a piece can look like.

* `Starts`: the character that a text starts with. `first?_eq_some_iff`: **it is the first one found.**
* `pieces_raw`: the bytes of the pieces in a row are the text.
* `wellFormed_pieces`: **a piece is one ASCII byte, or it holds only bytes from `0x80` on** and stands
  for no ASCII character.
* `encode_scalar`: **a piece that is a character is written with its own bytes.**
* `isCharacter_pieces`: **what is a character in one text is one in every text.**
* `pieces_append_of_valid`, `valid_of_ascii`: valid texts.
* `valid_sanitize`, `sanitize_eq_self_iff`: texts in which stray bytes are replaced.
-/

namespace BuildScript.Utf8

/-- A piece as `pieces` makes them: an ASCII byte with its own code, or bytes that are all outside
ASCII, with a code outside ASCII if there is one. -/
inductive Piece.WellFormed : Piece → Prop
  | ascii (b : UInt8) : b < 0x80 → WellFormed ⟨[b], some b.toNat⟩
  | wide (b : UInt8) (tail : Bytes) (code? : Option Nat) : 0x80 ≤ b → (∀ t ∈ tail, 0x80 ≤ t) →
      (∀ c, code? = some c → 0x80 ≤ c) → WellFormed ⟨b :: tail, code?⟩

/-- A continuation byte is outside ASCII. -/
theorem le_of_isTail {b : UInt8} (h : isTail b = true) : 0x80 ≤ b := by
  simp only [isTail, Bool.and_eq_true, decide_eq_true_eq] at h
  exact h.1

theorem le_secondLow (b : UInt8) : 0x80 ≤ secondLow b := by
  unfold secondLow
  split
  · decide
  · split <;> decide

/-- After the lead bytes that carry no bits of their own, the second byte carries enough. -/
theorem le_tailBits_second {b b1 : UInt8} (hb : b = 0xE0 ∨ b = 0xF0) (hlow : secondLow b ≤ b1)
    (hhigh : b1 ≤ secondHigh b) : 16 ≤ tailBits b1 := by
  have hlow' : 0x90 ≤ b1.toNat := by
    rcases hb with rfl | rfl
    · have : 0xA0 ≤ b1.toNat := by simpa [secondLow, UInt8.le_iff_toNat_le] using hlow
      omega
    · simpa [secondLow, UInt8.le_iff_toNat_le] using hlow
  have hhigh' : b1.toNat ≤ 0xBF := by
    rcases hb with rfl | rfl <;> simpa [secondHigh, UInt8.le_iff_toNat_le] using hhigh
  unfold tailBits
  omega

/-- Three bytes stand for a code outside ASCII. -/
theorem le_code_three {b b1 b2 : UInt8} (hge : 0xE0 ≤ b.toNat) (hlt : b.toNat < 0xF0)
    (hlow : secondLow b ≤ b1) (hhigh : b1 ≤ secondHigh b) :
    0x80 ≤ (b.toNat % 16 * 64 + tailBits b1) * 64 + tailBits b2 := by
  by_cases hb : b = 0xE0
  · have := le_tailBits_second (Or.inl hb) hlow hhigh
    omega
  · have : b.toNat ≠ 0xE0 := fun h => hb (UInt8.toNat_inj.mp h)
    omega

/-- Four bytes stand for a code outside ASCII. -/
theorem le_code_four {b b1 b2 b3 : UInt8} (hge : 0xF0 ≤ b.toNat) (hlt : b.toNat < 0xF5)
    (hlow : secondLow b ≤ b1) (hhigh : b1 ≤ secondHigh b) :
    0x80 ≤ ((b.toNat % 8 * 64 + tailBits b1) * 64 + tailBits b2) * 64 + tailBits b3 := by
  by_cases hb : b = 0xF0
  · have := le_tailBits_second (Or.inr hb) hlow hhigh
    omega
  · have : b.toNat ≠ 0xF0 := fun h => hb (UInt8.toNat_inj.mp h)
    omega

/-- The character that a text starts with, by the number of its bytes. -/
inductive Starts : Bytes → (code width : Nat) → Prop
  | one (b : UInt8) (rest : Bytes) : b < 0x80 → Starts (b :: rest) b.toNat 1
  | two (b b1 : UInt8) (rest : Bytes) : ¬ b < 0x80 → ¬ b < 0xC2 → b < 0xE0 → isTail b1 = true →
      Starts (b :: b1 :: rest) (b.toNat % 32 * 64 + tailBits b1) 2
  | three (b b1 b2 : UInt8) (rest : Bytes) : ¬ b < 0x80 → ¬ b < 0xC2 → ¬ b < 0xE0 → b < 0xF0 →
      secondLow b ≤ b1 → b1 ≤ secondHigh b → isTail b2 = true →
      Starts (b :: b1 :: b2 :: rest) ((b.toNat % 16 * 64 + tailBits b1) * 64 + tailBits b2) 3
  | four (b b1 b2 b3 : UInt8) (rest : Bytes) : ¬ b < 0x80 → ¬ b < 0xC2 → ¬ b < 0xE0 → ¬ b < 0xF0 →
      b < 0xF5 → secondLow b ≤ b1 → b1 ≤ secondHigh b → isTail b2 = true → isTail b3 = true →
      Starts (b :: b1 :: b2 :: b3 :: rest)
        (((b.toNat % 8 * 64 + tailBits b1) * 64 + tailBits b2) * 64 + tailBits b3) 4

/-- **What the first character of a text can be**, and when it is. -/
theorem first?_eq_some_iff {s : Bytes} {c width : Nat} : first? s = some (c, width) ↔ Starts s c width := by
  constructor
  · intro h
    cases s with
    | nil => cases h
    | cons b rest =>
      simp only [first?] at h
      split at h
      · next hb => cases h; exact .one b rest hb
      next hb =>
      split at h
      · cases h
      next hC2 =>
      split at h
      · next hE0 =>
        split at h
        · split at h
          · next ht => cases h; exact .two _ _ _ hb hC2 hE0 ht
          · cases h
        · cases h
      next hE0 =>
      split at h
      · next hF0 =>
        split at h
        · split at h
          · next ht =>
            simp only [Bool.and_eq_true, decide_eq_true_eq] at ht
            cases h
            exact .three _ _ _ _ hb hC2 hE0 hF0 ht.1.1 ht.1.2 ht.2
          · cases h
        · cases h
      next hF0 =>
      split at h
      · next hF5 =>
        split at h
        · split at h
          · next ht =>
            simp only [Bool.and_eq_true, decide_eq_true_eq] at ht
            cases h
            exact .four _ _ _ _ _ hb hC2 hE0 hF0 hF5 ht.1.1.1 ht.1.1.2 ht.1.2 ht.2
          · cases h
        · cases h
      · cases h
  · intro h
    cases h with
    | one b rest hb => simp only [first?, if_pos hb]
    | two b b1 rest hb hC2 hE0 h1 => simp only [first?, if_neg hb, if_neg hC2, if_pos hE0, if_pos h1]
    | three b b1 b2 rest hb hC2 hE0 hF0 hlow hhigh h2 =>
      simp only [first?, if_neg hb, if_neg hC2, if_neg hE0, if_pos hF0, hlow, hhigh, h2, decide_true,
        Bool.and_self, if_true]
    | four b b1 b2 b3 rest hb hC2 hE0 hF0 hF5 hlow hhigh h2 h3 =>
      simp only [first?, if_neg hb, if_neg hC2, if_neg hE0, if_neg hF0, if_pos hF5, hlow, hhigh, h2, h3,
        decide_true, Bool.and_self, if_true]

theorem le_toNat_of_not_lt {b n : UInt8} (h : ¬ b < n) : n.toNat ≤ b.toNat :=
  UInt8.le_iff_toNat_le.1 (UInt8.not_lt.1 h)

/-- **The first character of a text** is an ASCII byte, or bytes outside ASCII with a code outside
ASCII. -/
theorem first?_cases {b : UInt8} {rest : Bytes} {c width : Nat}
    (h : first? (b :: rest) = some (c, width)) :
    (b < 0x80 ∧ c = b.toNat ∧ width = 1) ∨
      (0x80 ≤ b ∧ 0x80 ≤ c ∧ 1 ≤ width ∧ ∀ t ∈ rest.take (width - 1), 0x80 ≤ t) := by
  cases first?_eq_some_iff.1 h with
  | one b rest hb => exact Or.inl ⟨hb, rfl, rfl⟩
  | two b b1 rest hb hC2 hE0 h1 =>
    -- the lead byte carries at least the value 2
    have hge := le_toNat_of_not_lt hC2
    have hlt := UInt8.lt_iff_toNat_lt.1 hE0
    simp only [UInt8.reduceToNat] at hge hlt
    exact Or.inr ⟨UInt8.not_lt.1 hb, by omega, by omega, by simpa using le_of_isTail h1⟩
  | three b b1 b2 rest hb hC2 hE0 hF0 hlow hhigh h2 =>
    refine Or.inr ⟨UInt8.not_lt.1 hb, le_code_three (le_toNat_of_not_lt hE0) (UInt8.lt_iff_toNat_lt.1 hF0) hlow
      hhigh, by omega, ?_⟩
    simpa using ⟨UInt8.le_trans (le_secondLow b) hlow, le_of_isTail h2⟩
  | four b b1 b2 b3 rest hb hC2 hE0 hF0 hF5 hlow hhigh h2 h3 =>
    refine Or.inr ⟨UInt8.not_lt.1 hb, le_code_four (le_toNat_of_not_lt hF0) (UInt8.lt_iff_toNat_lt.1 hF5) hlow
      hhigh, by omega, ?_⟩
    simpa using ⟨UInt8.le_trans (le_secondLow b) hlow, le_of_isTail h2, le_of_isTail h3⟩

theorem piecesFrom_wellFormed (s : Bytes) : ∀ skip, ∀ p ∈ piecesFrom skip s, p.WellFormed := by
  induction s with
  | nil => intro skip p hp; simp [piecesFrom] at hp
  | cons b rest ih =>
    intro skip p hp
    cases skip with
    | succ skip => exact ih skip p (by simpa [piecesFrom] using hp)
    | zero =>
      simp only [piecesFrom] at hp
      split at hp
      · rename_i c width hc
        rcases List.mem_cons.1 hp with rfl | hp
        · rcases first?_cases hc with ⟨hb, rfl, rfl⟩ | ⟨hb, hcode, hw, htail⟩
          · simpa using Piece.WellFormed.ascii b hb
          · obtain ⟨w, rfl⟩ : ∃ w, width = w + 1 := ⟨width - 1, by omega⟩
            rw [List.take_succ_cons]
            exact .wide b _ _ hb htail (fun c' h => by cases h; exact hcode)
        · exact ih _ p hp
      · rename_i hc
        rcases List.mem_cons.1 hp with rfl | hp
        · refine .wide b [] none ?_ (by simp) (by simp)
          by_contra hb
          have hb' : b < 0x80 := UInt8.not_le.mp hb
          simp [first?, hb'] at hc
        · exact ih _ p hp

/-- **Every piece of a text is well formed.** -/
theorem wellFormed_pieces {s : Bytes} {p : Piece} (hp : p ∈ pieces s) : p.WellFormed :=
  piecesFrom_wellFormed s 0 p hp

theorem piecesFrom_raw (s : Bytes) : ∀ skip, (piecesFrom skip s).flatMap Piece.raw = s.drop skip := by
  induction s with
  | nil => intro skip; simp [piecesFrom]
  | cons b rest ih =>
    intro skip
    cases skip with
    | succ skip => simpa [piecesFrom] using ih skip
    | zero =>
      simp only [piecesFrom]
      split
      · rename_i c width hc
        obtain ⟨w, rfl⟩ : ∃ w, width = w + 1 := by
          rcases first?_cases hc with ⟨-, -, rfl⟩ | ⟨-, -, hw, -⟩
          · exact ⟨0, rfl⟩
          · exact ⟨width - 1, by omega⟩
        rw [List.flatMap_cons, ih, List.take_succ_cons, Nat.add_sub_cancel, List.cons_append,
          List.take_append_drop, List.drop_zero]
      · rw [List.flatMap_cons, ih]; rfl

/-- **The pieces in a row are the text.** -/
theorem pieces_raw (s : Bytes) : (pieces s).flatMap Piece.raw = s := by
  rw [pieces, piecesFrom_raw, List.drop_zero]

theorem pieces_ne_nil {s : Bytes} (hs : s ≠ []) : pieces s ≠ [] := by
  intro h
  have hraw := pieces_raw s
  rw [h] at hraw
  exact hs hraw.symm

/-! ## Bytes of characters -/

/-- A continuation byte is made from its bits. -/
theorem tail_of_bits {b : UInt8} (h : isTail b = true) : (0x80 + tailBits b).toUInt8 = b := by
  simp only [isTail, Bool.and_eq_true, decide_eq_true_eq, UInt8.le_iff_toNat_le, UInt8.reduceToNat] at h
  have hbits : 0x80 + tailBits b = b.toNat := by
    unfold tailBits
    omega
  rw [hbits, Nat.toUInt8_eq, UInt8.ofNat_toNat]

theorem tailBits_lt (b : UInt8) : tailBits b < 64 := Nat.mod_lt _ (by decide)

/-- The second byte of three or four is a continuation byte, and after the lead bytes that carry no
bits of their own it carries enough. -/
theorem isTail_second {b b1 : UInt8} (hlow : secondLow b ≤ b1) (hhigh : b1 ≤ secondHigh b) :
    isTail b1 = true ∧ (b = 0xE0 → 32 ≤ tailBits b1) ∧ (b = 0xF0 → 16 ≤ tailBits b1) := by
  have hle : b1.toNat ≤ 0xBF := by
    have hmax : secondHigh b ≤ 0xBF := by
      unfold secondHigh
      split
      · decide
      · split <;> decide
    exact UInt8.le_iff_toNat_le.1 (UInt8.le_trans hhigh hmax)
  have hge : 0x80 ≤ b1.toNat := UInt8.le_iff_toNat_le.1 (UInt8.le_trans (le_secondLow b) hlow)
  refine ⟨?_, fun hb => ?_, fun hb => ?_⟩
  · simp only [isTail, Bool.and_eq_true, decide_eq_true_eq, UInt8.le_iff_toNat_le, UInt8.reduceToNat]
    exact ⟨hge, hle⟩
  · have hlead : 0xA0 ≤ b1.toNat := by simpa [hb, secondLow, UInt8.le_iff_toNat_le] using hlow
    unfold tailBits
    omega
  · have hlead : 0x90 ≤ b1.toNat := by simpa [hb, secondLow, UInt8.le_iff_toNat_le] using hlow
    unfold tailBits
    omega

theorem encode_two {b b1 : UInt8} (hge : 0xC2 ≤ b.toNat) (hlt : b.toNat < 0xE0)
    (h1 : isTail b1 = true) : encode (b.toNat % 32 * 64 + tailBits b1) = [b, b1] := by
  have hbits := tailBits_lt b1
  have hlead : 0xC0 + (b.toNat % 32 * 64 + tailBits b1) / 64 = b.toNat := by omega
  have htail : (b.toNat % 32 * 64 + tailBits b1) % 64 = tailBits b1 := by omega
  rw [encode, if_neg (by omega), if_pos (by omega), hlead, htail, tail_of_bits h1, Nat.toUInt8_eq,
    UInt8.ofNat_toNat]

theorem encode_three {b b1 b2 : UInt8} (hge : 0xE0 ≤ b.toNat) (hlt : b.toNat < 0xF0)
    (h1 : isTail b1 = true) (hleast : b = 0xE0 → 32 ≤ tailBits b1) (h2 : isTail b2 = true) :
    encode ((b.toNat % 16 * 64 + tailBits b1) * 64 + tailBits b2) = [b, b1, b2] := by
  have hbits := tailBits_lt b1
  have hbits2 := tailBits_lt b2
  -- fewer bytes would not do
  have hmany : 0x800 ≤ (b.toNat % 16 * 64 + tailBits b1) * 64 + tailBits b2 := by
    by_cases hb : b = 0xE0
    · have := hleast hb
      omega
    · have : b.toNat ≠ 0xE0 := fun h => hb (UInt8.toNat_inj.mp h)
      omega
  generalize hc : (b.toNat % 16 * 64 + tailBits b1) * 64 + tailBits b2 = c at hmany ⊢
  have hlead : 0xE0 + c / 4096 = b.toNat := by omega
  have hsecond : c / 64 % 64 = tailBits b1 := by omega
  have hthird : c % 64 = tailBits b2 := by omega
  rw [encode, if_neg (by omega), if_neg (by omega), if_pos (by omega), hlead, hsecond, hthird,
    tail_of_bits h1, tail_of_bits h2, Nat.toUInt8_eq, UInt8.ofNat_toNat]

theorem encode_four {b b1 b2 b3 : UInt8} (hge : 0xF0 ≤ b.toNat) (hlt : b.toNat < 0xF5)
    (h1 : isTail b1 = true) (hleast : b = 0xF0 → 16 ≤ tailBits b1) (h2 : isTail b2 = true)
    (h3 : isTail b3 = true) :
    encode (((b.toNat % 8 * 64 + tailBits b1) * 64 + tailBits b2) * 64 + tailBits b3) =
      [b, b1, b2, b3] := by
  have hbits := tailBits_lt b1
  have hbits2 := tailBits_lt b2
  have hbits3 := tailBits_lt b3
  have hmany : 0x10000 ≤
      ((b.toNat % 8 * 64 + tailBits b1) * 64 + tailBits b2) * 64 + tailBits b3 := by
    by_cases hb : b = 0xF0
    · have := hleast hb
      omega
    · have : b.toNat ≠ 0xF0 := fun h => hb (UInt8.toNat_inj.mp h)
      omega
  generalize hc : ((b.toNat % 8 * 64 + tailBits b1) * 64 + tailBits b2) * 64 + tailBits b3 = c
    at hmany ⊢
  have hlead : 0xF0 + c / 262144 = b.toNat := by omega
  have hsecond : c / 4096 % 64 = tailBits b1 := by omega
  have hthird : c / 64 % 64 = tailBits b2 := by omega
  have hfourth : c % 64 = tailBits b3 := by omega
  rw [encode, if_neg (by omega), if_neg (by omega), if_neg (by omega), hlead, hsecond, hthird, hfourth,
    tail_of_bits h1, tail_of_bits h2, tail_of_bits h3, Nat.toUInt8_eq, UInt8.ofNat_toNat]

/-- **The first character of a text is written with the bytes that it was read from.** -/
theorem encode_of_first? {s : Bytes} {c width : Nat} (h : first? s = some (c, width)) :
    s.take width = encode c := by
  cases first?_eq_some_iff.1 h with
  | one b rest hb =>
    have hlt := UInt8.lt_iff_toNat_lt.1 hb
    simp only [UInt8.reduceToNat] at hlt
    simp [encode, hlt]
  | two b b1 rest hb hC2 hE0 h1 =>
    exact (encode_two (le_toNat_of_not_lt hC2) (UInt8.lt_iff_toNat_lt.1 hE0) h1).symm
  | three b b1 b2 rest hb hC2 hE0 hF0 hlow hhigh h2 =>
    obtain ⟨h1, hleast, -⟩ := isTail_second hlow hhigh
    exact (encode_three (le_toNat_of_not_lt hE0) (UInt8.lt_iff_toNat_lt.1 hF0) h1 hleast h2).symm
  | four b b1 b2 b3 rest hb hC2 hE0 hF0 hF5 hlow hhigh h2 h3 =>
    obtain ⟨h1, -, hleast⟩ := isTail_second hlow hhigh
    exact (encode_four (le_toNat_of_not_lt hF0) (UInt8.lt_iff_toNat_lt.1 hF5) h1 hleast h2 h3).symm

theorem piecesFrom_encode (s : Bytes) : ∀ skip, ∀ p ∈ piecesFrom skip s, ∀ c, p.scalar? = some c →
    p.raw = encode c := by
  induction s with
  | nil => intro skip p hp; simp [piecesFrom] at hp
  | cons b rest ih =>
    intro skip p hp c hc
    cases skip with
    | succ skip => exact ih skip p (by simpa [piecesFrom] using hp) c hc
    | zero =>
      simp only [piecesFrom] at hp
      split at hp
      · next code width hfirst =>
        rcases List.mem_cons.1 hp with rfl | hp
        · cases hc
          exact encode_of_first? hfirst
        · exact ih _ p hp c hc
      · rcases List.mem_cons.1 hp with rfl | hp
        · cases hc
        · exact ih _ p hp c hc

/-- **A piece that is a character is written with its own bytes.** -/
theorem encode_scalar {s : Bytes} {p : Piece} (hp : p ∈ pieces s) {c : Nat} (hc : p.scalar? = some c) :
    p.raw = encode c :=
  piecesFrom_encode s 0 p hp c hc

/-! ## Characters in a row -/

/-- A character is no longer than the text that starts with it. -/
theorem width_le {s : Bytes} {c width : Nat} (h : first? s = some (c, width)) :
    1 ≤ width ∧ width ≤ s.length := by
  cases first?_eq_some_iff.1 h <;> simp

/-- The first character of a text is found again, whatever comes behind it. -/
theorem first?_take {s : Bytes} {c width : Nat} (h : first? s = some (c, width)) (t : Bytes) :
    first? (s.take width ++ t) = some (c, width) := by
  rw [first?_eq_some_iff] at h ⊢
  cases h with
  | one b rest hb => exact .one b t hb
  | two b b1 rest hb hC2 hE0 h1 => exact .two b b1 t hb hC2 hE0 h1
  | three b b1 b2 rest hb hC2 hE0 hF0 hlow hhigh h2 =>
    exact .three b b1 b2 t hb hC2 hE0 hF0 hlow hhigh h2
  | four b b1 b2 b3 rest hb hC2 hE0 hF0 hF5 hlow hhigh h2 h3 =>
    exact .four b b1 b2 b3 t hb hC2 hE0 hF0 hF5 hlow hhigh h2 h3

/-- A piece that is one character, and stays one whatever comes behind it. -/
def Piece.IsCharacter (p : Piece) : Prop :=
  p.scalar?.isSome = true ∧ ∀ t, pieces (p.raw ++ t) = p :: pieces t

theorem piecesFrom_drop (s : Bytes) : ∀ skip, piecesFrom skip s = pieces (s.drop skip) := by
  induction s with
  | nil => intro skip; simp [piecesFrom, pieces]
  | cons b rest ih =>
    intro skip
    cases skip with
    | zero => rfl
    | succ skip => rw [piecesFrom, ih skip, List.drop_succ_cons]

/-- A text of which the first character is known. -/
theorem pieces_of_first? {s : Bytes} {c width : Nat} (h : first? s = some (c, width)) (hwidth : 1 ≤ width) :
    pieces s = ⟨s.take width, some c⟩ :: pieces (s.drop width) := by
  cases s with
  | nil => cases h
  | cons b rest =>
    obtain ⟨w, rfl⟩ : ∃ w, width = w + 1 := ⟨width - 1, by omega⟩
    rw [pieces]
    simp only [piecesFrom, h]
    rw [piecesFrom_drop, Nat.add_sub_cancel, List.drop_succ_cons]

theorem isCharacter_of_first? {s : Bytes} {c width : Nat} (h : first? s = some (c, width)) :
    Piece.IsCharacter ⟨s.take width, some c⟩ := by
  obtain ⟨hpos, hle⟩ := width_le h
  have hlength : (s.take width).length = width := by
    rw [List.length_take, Nat.min_eq_left hle]
  refine ⟨rfl, fun t => ?_⟩
  rw [pieces_of_first? (first?_take h t) hpos, List.take_left' hlength, List.drop_left' hlength]

theorem isCharacter_piecesFrom (s : Bytes) : ∀ skip, ∀ p ∈ piecesFrom skip s, p.scalar?.isSome = true →
    p.IsCharacter := by
  induction s with
  | nil => intro skip p hp; simp [piecesFrom] at hp
  | cons b rest ih =>
    intro skip p hp hscalar
    cases skip with
    | succ skip => exact ih skip p (by simpa [piecesFrom] using hp) hscalar
    | zero =>
      simp only [piecesFrom] at hp
      split at hp
      · next code width hfirst =>
        rcases List.mem_cons.1 hp with rfl | hp
        · exact isCharacter_of_first? hfirst
        · exact ih _ p hp hscalar
      · rcases List.mem_cons.1 hp with rfl | hp
        · cases hscalar
        · exact ih _ p hp hscalar

/-- **What is a character in one text is one in every text.** -/
theorem isCharacter_pieces {s : Bytes} {p : Piece} (hp : p ∈ pieces s) (h : p.scalar?.isSome = true) :
    p.IsCharacter :=
  isCharacter_piecesFrom s 0 p hp h

/-- Characters put in a row are found again. -/
theorem pieces_flatMap_raw {ps : List Piece} (h : ∀ p ∈ ps, p.IsCharacter) (t : Bytes) :
    pieces (ps.flatMap Piece.raw ++ t) = ps ++ pieces t := by
  induction ps with
  | nil => rfl
  | cons p ps ih =>
    obtain ⟨hp, hps⟩ := List.forall_mem_cons.1 h
    rw [List.flatMap_cons, List.append_assoc, hp.2, ih hps, List.cons_append]

/-! ## Valid texts -/

/-- A valid text can be followed by any other. -/
theorem pieces_append_of_valid {s : Bytes} (h : valid s = true) (t : Bytes) :
    pieces (s ++ t) = pieces s ++ pieces t := by
  have hall : ∀ p ∈ pieces s, p.IsCharacter := fun p hp => isCharacter_pieces hp (List.all_eq_true.1 h p hp)
  have hrow := pieces_flatMap_raw hall t
  rwa [pieces_raw] at hrow

/-- A valid text needs no replacements. -/
theorem sanitize_of_valid {s : Bytes} (h : valid s = true) : sanitize s = s := by
  have hraw : ∀ p ∈ pieces s, (if p.scalar?.isSome then p.raw else replacement) = p.raw := by
    intro p hp
    rw [if_pos (List.all_eq_true.1 h p hp)]
  rw [sanitize, List.flatMap_congr hraw, pieces_raw]

/-- The replacement of a stray byte. -/
def Piece.mended (p : Piece) : Piece := if p.scalar?.isSome then p else ⟨replacement, some 0xFFFD⟩

theorem sanitize_eq_mended (s : Bytes) : sanitize s = ((pieces s).map Piece.mended).flatMap Piece.raw := by
  rw [sanitize, List.flatMap_map]
  refine List.flatMap_congr fun p _ => ?_
  rw [Piece.mended]
  split <;> rfl

/-- **What is left when stray bytes are replaced is valid.** -/
theorem valid_sanitize (s : Bytes) : valid (sanitize s) = true := by
  have hall : ∀ p ∈ (pieces s).map Piece.mended, p.IsCharacter := by
    intro p hp
    obtain ⟨q, hq, rfl⟩ := List.mem_map.1 hp
    rw [Piece.mended]
    split
    · next hscalar => exact isCharacter_pieces hq hscalar
    · exact isCharacter_of_first? (by decide : first? (0xEF :: [0xBF, 0xBD]) = some (0xFFFD, 3))
  have hnil : pieces [] = [] := rfl
  have hpieces := pieces_flatMap_raw hall []
  rw [List.append_nil, ← sanitize_eq_mended, hnil, List.append_nil] at hpieces
  rw [valid, hpieces, List.all_eq_true]
  intro p hp
  exact (hall p hp).1

/-- **The texts that stay as they are** when stray bytes are replaced. -/
theorem sanitize_eq_self_iff {s : Bytes} : sanitize s = s ↔ valid s = true :=
  ⟨fun h => h ▸ valid_sanitize s, sanitize_of_valid⟩

theorem valid_of_ascii {s : Bytes} (h : ∀ b ∈ s, b < 0x80) : valid s = true := by
  rw [valid, List.all_eq_true]
  intro p hp
  -- a stray byte is outside ASCII
  cases hform : wellFormed_pieces hp with
  | ascii b hb => rfl
  | wide b tail code? hb htail hcode =>
    have hmem : b ∈ s := by
      rw [← pieces_raw s]
      exact List.mem_flatMap.2 ⟨_, hp, List.mem_cons_self⟩
    exact absurd (h b hmem) (UInt8.not_lt.2 hb)

end BuildScript.Utf8
