import BuildScript.Compile.Checkout
import BuildScript.Proofs.Digest.Encoding
import BuildScript.Proofs.Text.Numerals
import Mathlib.Data.Nat.Bitwise
import Mathlib.Tactic.Linarith

/-!
# What the hash of a job tells apart

The hash of a job is put together from sums of sums. A sum never loses what was in its state, so two jobs
that differ in one field have one hash only if two different words have one sum on the way from that field
to the top. An unset depth of submodules is summed as the number zero, so the two are never told apart.

* `Fnv.sumFrom_inj`: **what is summed later does not bring two states together.**
* `Fnv.Apart`, `Fnv.Apart.sumFrom`: how far bytes take a state from where zeros take it.
* `Fnv.ofWord_ne_zero`: **the sum of a number below 2³² is not that of zero**, unless the number is zero.
* `Fnv.Clash`: two different words with one sum behind the same bytes.
* `Fnv.ofRecord_eq_iff`: **records that differ in one field at most have one sum exactly if the values there
  are the same or clash.**
* `unset_depth_hash_iff`: **when an unset depth and a number have one hash.**
* `unset_depth_not_told`: in every job, the numbers 0 and 4798671624984882112.
-/

namespace BuildScript

namespace Fnv

variable {h h' n : UInt64} {d : ℤ}

/-- A sum that goes on with a byte. -/
def mix (h : UInt64) (b : UInt8) : UInt64 := (h * prime) ^^^ b.toUInt64

/-- A sum that goes on with a byte text. -/
def sumFrom (h : UInt64) (s : Bytes) : UInt64 := s.foldl mix h

theorem sum_append (s t : Bytes) : sum (s ++ t) = sumFrom (sum s) t := List.foldl_append

/-- The multiplier can be undone. -/
theorem mul_prime_inj (h1 : h * prime = h' * prime) : h = h' := by
  have hinv : prime * 0xce965057aff6957b = 1 := by decide
  have hcancel : h * prime * 0xce965057aff6957b = h' * prime * 0xce965057aff6957b := by rw [h1]
  rwa [UInt64.mul_assoc, UInt64.mul_assoc, hinv, UInt64.mul_one, UInt64.mul_one] at hcancel

/-- **What is summed later does not bring two states together.** -/
theorem sumFrom_inj {s : Bytes} (heq : sumFrom h s = sumFrom h' s) : h = h' := by
  induction s generalizing h h' with
  | nil => exact heq
  | cons b rest ih => exact mul_prime_inj ((UInt64.xor_left_inj _).1 (ih heq))

/-! ## Small numbers -/

/-- A number below 256 that is mixed in changes the last byte only. -/
theorem xor_small {x b : Nat} (hb : b < 256) : x ^^^ b = 256 * (x / 256) + (x % 256 ^^^ b) := by
  have hdiv : (x ^^^ b) / 2 ^ 8 = x / 2 ^ 8 := by
    rw [Nat.xor_div_two_pow, Nat.div_eq_of_lt hb, Nat.xor_zero]
  have hmod : (x ^^^ b) % 2 ^ 8 = x % 2 ^ 8 ^^^ b := by
    rw [Nat.xor_mod_two_pow, Nat.mod_eq_of_lt hb]
  have hsplit := Nat.div_add_mod (x ^^^ b) (2 ^ 8)
  rw [hdiv, hmod] at hsplit
  exact hsplit.symm

/-- Up to multiples of 2⁴⁰ the multiplier is 435, and a byte moves the product by less than 256. It does move
it, unless the byte is zero. -/
theorem mix_drift (h : UInt64) (b : UInt8) : ∃ e k : ℤ, -255 ≤ e ∧ e ≤ 255 ∧ (e = 0 ↔ b = 0) ∧
    ((mix h b).toNat : ℤ) = 435 * h.toNat + e + 1099511627776 * k := by
  have hb := b.toNat_lt
  have hprime : prime.toNat = 1099511628211 := by decide
  obtain ⟨x, hx⟩ : ∃ x, x = h.toNat * 1099511628211 % 18446744073709551616 := ⟨_, rfl⟩
  have hmix : (mix h b).toNat = 256 * (x / 256) + (x % 256 ^^^ b.toNat) := by
    rw [mix, UInt64.toNat_xor, UInt64.toNat_mul, hprime, UInt8.toNat_toUInt64, hx]
    exact xor_small hb
  have hlow : x % 256 ^^^ b.toNat < 256 := Nat.xor_lt_two_pow (Nat.mod_lt x (by decide)) hb
  refine ⟨(x % 256 ^^^ b.toNat : ℕ) - (x % 256 : ℕ),
    h.toNat - 16777216 * (h.toNat * 1099511628211 / 18446744073709551616 : ℕ), by omega, by omega,
    ⟨fun he => ?_, ?_⟩, by omega⟩
  · have hsame : x % 256 ^^^ b.toNat = x % 256 ^^^ 0 := by
      rw [Nat.xor_zero]
      omega
    exact UInt8.toNat_inj.1 (Nat.xor_right_injective hsame)
  · rintro rfl
    rw [UInt8.toNat_zero, Nat.xor_zero, sub_self]

/-- How far apart two states are, up to multiples of 2⁴⁰. -/
def Apart (h h' : UInt64) (d : ℤ) : Prop := ∃ k : ℤ, (h.toNat : ℤ) = h'.toNat + d + 1099511627776 * k

theorem Apart.mix (hd : Apart h h' d) (b : UInt8) : ∃ e, -255 ≤ e ∧ e ≤ 255 ∧ (e = 0 ↔ b = 0) ∧
    Apart (mix h b) (mix h' 0) (435 * d + e) := by
  obtain ⟨k, hk⟩ := hd
  obtain ⟨e, l, hlow, hup, he, hmix⟩ := mix_drift h b
  obtain ⟨e', l', -, -, he', hmix'⟩ := mix_drift h' 0
  rw [he'.2 rfl] at hmix'
  refine ⟨e, hlow, hup, he, 435 * k + l - l', ?_⟩
  linarith

/-- Bytes take a state away from where zeros take it, unless all of them are zeros: the distance is a numeral
in base 435 whose digits are less than 256. -/
theorem Apart.sumFrom {s : Bytes} (hd : Apart h h' d) : ∃ d',
    Apart (sumFrom h s) (sumFrom h' (List.replicate s.length 0)) d' ∧
      (d' = 0 ↔ d = 0 ∧ ∀ b ∈ s, b = 0) ∧
      d'.natAbs + 1 ≤ Nat.pow 435 s.length * (d.natAbs + 1) := by
  induction s generalizing h h' d with
  | nil => exact ⟨d, hd, by simp, by simp⟩
  | cons b rest ih =>
    obtain ⟨e, hlow, hup, he, hstep⟩ := hd.mix b
    obtain ⟨d', hd', hzero, hbound⟩ := ih hstep
    refine ⟨d', hd', ?_, ?_⟩
    · have hdigit : 435 * d + e = 0 ↔ d = 0 ∧ e = 0 := by omega
      rw [hzero, hdigit, he, List.forall_mem_cons, and_assoc]
    · calc d'.natAbs + 1
        _ ≤ Nat.pow 435 rest.length * ((435 * d + e).natAbs + 1) := hbound
        _ ≤ Nat.pow 435 rest.length * (435 * (d.natAbs + 1)) := Nat.mul_le_mul_left _ (by omega)
        _ = Nat.pow 435 (rest.length + 1) * (d.natAbs + 1) := by rw [← Nat.mul_assoc]; rfl

/-- **Up to four bytes that leave a sum where zeros leave it are zeros.** -/
theorem eq_zero_of_sumFrom {s : Bytes} (hs : s.length ≤ 4)
    (heq : sumFrom h s = sumFrom h (List.replicate s.length 0)) : ∀ b ∈ s, b = 0 := by
  have hnone : Apart h h 0 := ⟨0, by simp⟩
  obtain ⟨d, ⟨k, hk⟩, hzero, hbound⟩ := hnone.sumFrom (s := s)
  -- The distance is a multiple of 2⁴⁰ and too small to be another one than zero.
  have hsmall : Nat.pow 435 s.length ≤ Nat.pow 435 4 := Nat.pow_le_pow_right (by decide) hs
  have hfour : Nat.pow 435 4 = 35806100625 := by decide
  rw [heq] at hk
  have hd : d = 0 := by
    rw [Int.natAbs_zero, Nat.zero_add, Nat.mul_one] at hbound
    omega
  exact (hzero.1 hd).2

/-- **The sum of a number below 2³² is not that of zero**, unless the number is zero. -/
theorem ofWord_ne_zero (hn : n ≠ 0) (hsmall : n.toNat < 4294967296) : ofWord 0 ≠ ofWord n := by
  intro heq
  -- The upper four bytes are zeros on both sides, so the sums of the lower ones agree.
  have hsplit : ∀ m < 4294967296, LittleEndian.encode 8 m = LittleEndian.encode 4 m ++ [0, 0, 0, 0] := by
    intro m hm
    have hhigh : m / 256 / 256 / 256 / 256 = 0 := by omega
    calc LittleEndian.encode 8 m
      _ = LittleEndian.encode 4 m ++ LittleEndian.encode 4 (m / 256 / 256 / 256 / 256) := rfl
      _ = LittleEndian.encode 4 m ++ [0, 0, 0, 0] := by rw [hhigh]; rfl
  rw [ofWord, ofWord, hsplit _ hsmall, hsplit _ (by decide), sum_append, sum_append] at heq
  have hzeros := eq_zero_of_sumFrom (LittleEndian.length_encode 4 _).le (sumFrom_inj heq).symm
  have hbytes : LittleEndian.encode 4 n.toNat = LittleEndian.encode 4 0 :=
    List.eq_replicate_iff.2 ⟨LittleEndian.length_encode 4 _, hzeros⟩
  have hpow : Nat.pow 256 4 = 4294967296 := by decide
  have hnat : n.toNat = 0 := LittleEndian.encode_inj (hpow ▸ hsmall) (by decide) hbytes
  exact hn (UInt64.toNat_inj.1 hnat)

/-! ## Words with one sum -/

/-- Two different words have one sum when the same bytes stand before both. -/
def Clash (before : Bytes) (a b : UInt64) : Prop :=
  a ≠ b ∧ sum (before ++ LittleEndian.encode 8 a.toNat) = sum (before ++ LittleEndian.encode 8 b.toNat)

instance (before : Bytes) (a b : UInt64) : Decidable (Clash before a b) :=
  inferInstanceAs (Decidable (_ ∧ _))

/-- What stands before the value of a field when the two are summed. -/
def label (field : Bytes) : Bytes := LittleEndian.encode 8 (sum field).toNat

theorem ofWord_zero_eq_iff : ofWord 0 = ofWord n ↔ n = 0 ∨ 4294967296 ≤ n.toNat ∧ Clash [] 0 n := by
  constructor
  · intro heq
    by_cases hn : n = 0
    · exact .inl hn
    · exact .inr ⟨Nat.le_of_not_lt fun hsmall => ofWord_ne_zero hn hsmall heq, Ne.symm hn, heq⟩
  · rintro (rfl | ⟨-, hclash⟩)
    · rfl
    · exact hclash.2

theorem pair_eq_iff (field : Bytes) (a b : UInt64) :
    pair (sum field) a = pair (sum field) b ↔ a = b ∨ Clash (label field) a b := by
  constructor
  · intro heq
    by_cases hab : a = b
    · exact .inl hab
    · exact .inr ⟨hab, heq⟩
  · rintro (rfl | hclash)
    · rfl
    · exact hclash.2

/-- The sum of a record that goes on with a field. -/
def addField (h : UInt64) (field : Bytes × UInt64) : UInt64 := h ^^^ pair (sum field.1) field.2

theorem ofRecord_append (name : Bytes) (before after : List (Bytes × UInt64)) :
    ofRecord name (before ++ after) = after.foldl addField (ofRecord name before) := List.foldl_append

/-- Fields that are summed later do not bring two records together. -/
theorem foldl_addField_inj {fields : List (Bytes × UInt64)}
    (heq : fields.foldl addField h = fields.foldl addField h') : h = h' := by
  induction fields generalizing h h' with
  | nil => exact heq
  | cons field rest ih => exact (UInt64.xor_left_inj _).1 (ih heq)

/-- **Records that differ in one field at most have one sum exactly if the values there are the same or
clash.** -/
theorem ofRecord_eq_iff (name field : Bytes) (before after : List (Bytes × UInt64)) (a b : UInt64) :
    ofRecord name (before ++ (field, a) :: after) = ofRecord name (before ++ (field, b) :: after) ↔
      a = b ∨ Clash (label field) a b := by
  rw [← pair_eq_iff, ofRecord_append, ofRecord_append, List.foldl_cons, List.foldl_cons]
  constructor
  · intro heq
    exact (UInt64.xor_right_inj _).1 (foldl_addField_inj heq)
  · intro heq
    rw [addField, addField, heq]

end Fnv

open Fnv (Clash label ofWord)

/-! ## Jobs that differ in the depth of submodules -/

theorem GitConfig.hash_eq_iff (git : GitConfig) (d d' : Option UInt64) :
    { git with submodulesDepth? := d }.hash = { git with submodulesDepth? := d' }.hash ↔
      ofWord (d.getD 0) = ofWord (d'.getD 0) ∨
        Clash (label (bytes "SubmodulesDepth")) (ofWord (d.getD 0)) (ofWord (d'.getD 0)) :=
  Fnv.ofRecord_eq_iff _ _ [_, _] [_] _ _

theorem Config.hash_eq_iff (config : Config) (git git' : GitConfig) :
    { config with git := git }.hash = { config with git := git' }.hash ↔
      git.hash = git'.hash ∨ Clash (label (bytes "Git")) git.hash git'.hash :=
  Fnv.ofRecord_eq_iff _ _ [_] [_] _ _

theorem Job.sum_eq_iff (job : Job) (config config' : Config) :
    { job with config := config }.sum = { job with config := config' }.sum ↔
      config.hash = config'.hash ∨ Clash (label (bytes "Config")) config.hash config'.hash :=
  Fnv.ofRecord_eq_iff _ _ [_, _] [_, _, _] _ _

theorem Job.hash_eq_iff (job job' : Job) : job.hash = job'.hash ↔ job.sum = job'.sum := by
  constructor
  · intro heq
    exact UInt64.toNat_inj.1 (Bytes.ofNatHex_inj heq)
  · intro heq
    rw [Job.hash, Job.hash, heq]

/-- A job with another depth of submodules. -/
def Job.withSubmodulesDepth (job : Job) (depth? : Option UInt64) : Job :=
  { job with config.git.submodulesDepth? := depth? }

variable (job : Job) (n : UInt64)

/-- On the way from the depth to the hash there are four sums, and each of them may clash. -/
theorem hash_unset_eq_iff :
    (job.withSubmodulesDepth none).hash = (job.withSubmodulesDepth (some n)).hash ↔
      n = 0 ∨ (4294967296 ≤ n.toNat ∧ Clash [] 0 n) ∨
        Clash (label (bytes "SubmodulesDepth")) (ofWord 0) (ofWord n) ∨
        Clash (label (bytes "Git")) (job.withSubmodulesDepth none).config.git.hash
          (job.withSubmodulesDepth (some n)).config.git.hash ∨
        Clash (label (bytes "Config")) (job.withSubmodulesDepth none).config.hash
          (job.withSubmodulesDepth (some n)).config.hash := by
  have hgit : (job.withSubmodulesDepth none).config.git.hash =
      (job.withSubmodulesDepth (some n)).config.git.hash ↔ _ :=
    GitConfig.hash_eq_iff job.config.git none (some n)
  have hconfig : (job.withSubmodulesDepth none).config.hash =
      (job.withSubmodulesDepth (some n)).config.hash ↔ _ :=
    Config.hash_eq_iff job.config (job.withSubmodulesDepth none).config.git
      (job.withSubmodulesDepth (some n)).config.git
  have hsum : (job.withSubmodulesDepth none).sum = (job.withSubmodulesDepth (some n)).sum ↔ _ :=
    Job.sum_eq_iff job (job.withSubmodulesDepth none).config (job.withSubmodulesDepth (some n)).config
  rw [Option.getD_none, Option.getD_some, Fnv.ofWord_zero_eq_iff] at hgit
  rw [Job.hash_eq_iff, hsum, hconfig, hgit, or_assoc, or_assoc, or_assoc]

namespace Checkout

/-- The checkout tells an unset depth from every number, if it updates submodules at all. -/
theorem statement_unset_eq_iff :
    statement (job.withSubmodulesDepth none) = statement (job.withSubmodulesDepth (some n)) ↔
      job.config.git.submodules = false ∨ job.config.git.strategy = GitConfig.tarball := by
  have hparts : statement (job.withSubmodulesDepth none) = statement (job.withSubmodulesDepth (some n)) ↔
      submodules (job.withSubmodulesDepth none) = submodules (job.withSubmodulesDepth (some n)) := by
    constructor
    · intro heq
      have hstatements := Statement.sequence.inj heq
      exact List.head_eq_of_cons_eq (congrArg (List.drop 7) hstatements)
    · intro heq
      rw [statement, statement, heq]
      rfl
  have hkept : ∀ d, (job.withSubmodulesDepth d).config.git.submodules = job.config.git.submodules ∧
      isTarball (job.withSubmodulesDepth d) = isTarball job := fun d => ⟨rfl, rfl⟩
  rw [← isTarball_iff, hparts, submodules, submodules, (hkept none).1, (hkept none).2, (hkept (some n)).1,
    (hkept (some n)).2]
  cases hsub : job.config.git.submodules with
  | false => simp
  | true =>
    cases htar : isTarball job with
    | true => simp
    | false => simp [Job.withSubmodulesDepth, printed, Statement.when, Statement.block, Statement.run, bytes]

end Checkout

/-- **When an unset depth of submodules and a number have one hash.** They do if the number is zero, which
the hash of no job tells from an unset depth; otherwise only if two different words have one sum: the
number and zero, which takes at least 2³², or the sums of the two at the place of the depth, of the
checkout's settings or of the configuration. The checkout itself tells the two apart in each job that
updates submodules. -/
theorem unset_depth_hash_iff (job : Job) (n : UInt64) :
    ((job.withSubmodulesDepth none).hash = (job.withSubmodulesDepth (some n)).hash ↔
      n = 0 ∨ (4294967296 ≤ n.toNat ∧ Clash [] 0 n) ∨
        Clash (label (bytes "SubmodulesDepth")) (ofWord 0) (ofWord n) ∨
        Clash (label (bytes "Git")) (job.withSubmodulesDepth none).config.git.hash
          (job.withSubmodulesDepth (some n)).config.git.hash ∨
        Clash (label (bytes "Config")) (job.withSubmodulesDepth none).config.hash
          (job.withSubmodulesDepth (some n)).config.hash) ∧
    (Checkout.statement (job.withSubmodulesDepth none) =
        Checkout.statement (job.withSubmodulesDepth (some n)) ↔
      job.config.git.submodules = false ∨ job.config.git.strategy = GitConfig.tarball) :=
  ⟨hash_unset_eq_iff job n, Checkout.statement_unset_eq_iff job n⟩

/-- In every job an unset depth has the hash of zero, and that of 4798671624984882112. The checkouts of the
sample job differ all the same. -/
theorem unset_depth_not_told :
    (∀ job : Job, (job.withSubmodulesDepth none).hash = (job.withSubmodulesDepth (some 0)).hash ∧
      (job.withSubmodulesDepth none).hash = (job.withSubmodulesDepth (some 4798671624984882112)).hash) ∧
    ∀ n, Checkout.statement (Job.sample.withSubmodulesDepth none) ≠
      Checkout.statement (Job.sample.withSubmodulesDepth (some n)) := by
  have hclash : Clash (label (bytes "SubmodulesDepth")) (ofWord 0) (ofWord 4798671624984882112) := by decide
  refine ⟨fun job => ⟨(hash_unset_eq_iff job 0).2 (.inl rfl),
    (hash_unset_eq_iff job _).2 (.inr (.inr (.inl hclash)))⟩, fun n heq => ?_⟩
  have hnone := (Checkout.statement_unset_eq_iff Job.sample n).1 heq
  exact absurd hnone (by decide)

end BuildScript
