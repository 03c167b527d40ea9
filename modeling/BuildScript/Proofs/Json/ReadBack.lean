import BuildScript.Json.Read
import BuildScript.Json.Write
import BuildScript.Proofs.Text.Parts
import BuildScript.Proofs.Text.Pieces
import Mathlib.Data.List.DropRight

/-!
# Written texts read back

Reading works the escapes off that writing has put in. Characters are escaped in two ways, by a letter or
by their number, and all others stand for themselves.

* `stringBody_quotePiece`: **one character is read back**, however it was written.
* `string?_quote`: **a text is read back**, whatever is in it. Stray bytes are replaced.
* `read_fields`: **an object of texts is read back**, with its fields in their order.
-/

namespace BuildScript.Json

open Utf8 (Piece pieces sanitize)

/-! ## One character -/

/-- The escapes of one letter are understood. The letter `u` is not among them. -/
theorem shortEscape?_letterEscape? {b c : UInt8} (h : letterEscape? b.toNat = some c) :
    shortEscape? c = some b ∧ c ≠ 117 := by
  have hback : ∀ n : UInt8, b.toNat = n.toNat → b = n := fun n => UInt8.toNat_inj.1
  unfold letterEscape? at h
  split at h
  · next hb => cases h; rw [hback 34 hb]; decide
  · next hb => cases h; rw [hback 92 hb]; decide
  · next hb => cases h; rw [hback 8 hb]; decide
  · next hb => cases h; rw [hback 9 hb]; decide
  · next hb => cases h; rw [hback 10 hb]; decide
  · next hb => cases h; rw [hback 12 hb]; decide
  · next hb => cases h; rw [hback 13 hb]; decide
  · cases h

theorem letterEscape?_of_le {n : Nat} (h : 0x80 ≤ n) : letterEscape? n = none := by
  unfold letterEscape?
  split <;> first | omega | rfl

theorem hexValue?_hexDigit : ∀ n < 16, Bytes.hexValue? (Bytes.hexDigit n) = some n := by decide

/-- A number written with four digits. -/
theorem hexFixed_four {n : Nat} (h : n < 65536) :
    ∃ a b c d, Bytes.hexFixed 4 n = [a, b, c, d] ∧ hex4? a b c d = some n := by
  have hvalue : ∀ m, Bytes.hexValue? (Bytes.hexDigit (m % 16)) = some (m % 16) :=
    fun m => hexValue?_hexDigit _ (Nat.mod_lt _ (by decide))
  refine ⟨_, _, _, _, rfl, ?_⟩
  simp only [hex4?, hvalue, Option.bind_eq_bind, Option.bind_some, Option.pure_def, Option.some.injEq]
  omega

/-- A character that is written by its number is none of the two halves of another one. -/
theorem lt_of_isNumbered {n : Nat} (h : isNumbered n = true) : n < 0xD800 := by
  simp only [isNumbered, Bool.or_eq_true, decide_eq_true_eq] at h
  omega

/-- A byte that stands for itself. -/
def isPlain (b : UInt8) : Bool := 32 ≤ b && b != 34 && b != 92

theorem stringBody_plain {b : UInt8} (h : isPlain b = true) (tail : Bytes) :
    stringBody none (b :: tail) = (stringBody none tail).map fun (s, rest) => (b :: s, rest) := by
  simp only [isPlain, Bool.and_eq_true, decide_eq_true_eq, bne_iff_ne, ne_eq] at h
  obtain ⟨⟨hcontrol, hquote⟩, hslash⟩ := h
  have hcontrol : ¬ b < 32 := UInt8.not_lt.2 hcontrol
  conv_lhs => unfold stringBody
  split
  · next heq => cases heq
  · next heq => cases heq; exact absurd rfl hquote
  · next heq => cases heq; exact absurd rfl hslash
  · next heq => cases heq; exact absurd rfl hslash
  · next heq =>
    cases heq
    rw [if_neg (by simp [hcontrol, hslash])]
    rfl

theorem stringBody_letter {b c : UInt8} (h : letterEscape? b.toNat = some c) (tail : Bytes) :
    stringBody none (92 :: c :: tail) = (stringBody none tail).map fun (s, rest) => (b :: s, rest) := by
  obtain ⟨hescape, hu⟩ := shortEscape?_letterEscape? h
  conv_lhs => unfold stringBody
  split
  · next heq => cases heq
  · next heq => cases heq
  · next heq => cases heq; exact absurd rfl hu
  · next heq =>
    cases heq
    rw [hescape]
    rfl
  · next hnot heq =>
    cases heq
    exact (hnot _ _ rfl rfl).elim

theorem stringBody_numbered {n : Nat} (h : isNumbered n = true) (tail : Bytes) :
    stringBody none (92 :: 117 :: (Bytes.hexFixed 4 n ++ tail)) =
      (stringBody none tail).map fun (s, rest) => (Utf8.encode n ++ s, rest) := by
  have hlt := lt_of_isNumbered h
  obtain ⟨a, b, c, d, hdigits, hvalue⟩ := hexFixed_four (n := n) (by omega)
  have hhigh : Utf16.isHigh n = false := by
    simp only [Utf16.isHigh, Bool.and_eq_false_iff, decide_eq_false_iff_not]
    omega
  have hlow : Utf16.isLow n = false := by
    simp only [Utf16.isLow, Bool.and_eq_false_iff, decide_eq_false_iff_not]
    omega
  rw [hdigits]
  simp only [List.cons_append, List.nil_append, stringBody, hvalue, hhigh, escaped, hlow]
  rfl

theorem stringBody_raw {raw : Bytes} (h : raw.all isPlain = true) (tail : Bytes) :
    stringBody none (raw ++ tail) = (stringBody none tail).map fun (s, rest) => (raw ++ s, rest) := by
  induction raw with
  | nil => exact Option.map_id'.symm
  | cons b raw ih =>
    rw [List.all_cons, Bool.and_eq_true] at h
    rw [List.cons_append, stringBody_plain h.1, ih h.2, Option.map_map]
    rfl

/-- What is neither escaped nor numbered stands for itself. -/
theorem isPlain_of_ascii {b : UInt8} (hletter : letterEscape? b.toNat = none)
    (hnumber : isNumbered b.toNat = false) : isPlain b = true := by
  have hcontrol : 32 ≤ b := by
    rw [← UInt8.not_lt, UInt8.lt_iff_toNat_lt]
    intro hlt
    have hnumbered : isNumbered b.toNat = true := by
      simp only [isNumbered, Bool.or_eq_true, decide_eq_true_eq]
      simp only [UInt8.reduceToNat] at hlt
      omega
    rw [hnumber] at hnumbered
    cases hnumbered
  have hquote : b ≠ 34 := by
    rintro rfl
    cases hletter
  have hslash : b ≠ 92 := by
    rintro rfl
    cases hletter
  simp only [isPlain, Bool.and_eq_true, decide_eq_true_eq, bne_iff_ne]
  exact ⟨⟨hcontrol, hquote⟩, hslash⟩

theorem isPlain_of_le {b : UInt8} (h : 0x80 ≤ b) : isPlain b = true := by
  have hquote : b ≠ 34 := by
    rintro rfl
    exact absurd h (by decide)
  have hslash : b ≠ 92 := by
    rintro rfl
    exact absurd h (by decide)
  simp only [isPlain, Bool.and_eq_true, decide_eq_true_eq, bne_iff_ne]
  exact ⟨⟨UInt8.le_trans (by decide) h, hquote⟩, hslash⟩

/-- **One character is read back**, however it was written, and a stray byte as its replacement. -/
theorem stringBody_quotePiece {s : Bytes} {p : Piece} (hp : p ∈ pieces s) (tail : Bytes) :
    stringBody none (quotePiece p ++ tail) =
      (stringBody none tail).map fun (s, rest) => (p.mended.raw ++ s, rest) := by
  unfold quotePiece
  cases hc : p.scalar? with
  | none =>
    have hraw : p.mended.raw = Utf8.replacement := by simp [Piece.mended, hc]
    have hplain : Utf8.replacement.all isPlain = true := by decide
    rw [hraw]
    exact stringBody_raw hplain tail
  | some c =>
    have hraw : p.mended.raw = p.raw := by simp [Piece.mended, hc]
    rw [hraw]
    dsimp only
    cases hletter : letterEscape? c with
    | some letter =>
      cases hform : Utf8.wellFormed_pieces hp with
      | ascii b hb =>
        cases hc
        exact stringBody_letter hletter tail
      | wide b more code? hb hmore hcode =>
        rw [letterEscape?_of_le (hcode c hc)] at hletter
        cases hletter
    | none =>
      dsimp only
      split
      · next hnumber =>
        rw [Utf8.encode_scalar hp hc, List.cons_append, List.cons_append]
        exact stringBody_numbered hnumber tail
      · next hnumber =>
        refine stringBody_raw ?_ tail
        cases hform : Utf8.wellFormed_pieces hp with
        | ascii b hb =>
          cases hc
          rw [List.all_cons, isPlain_of_ascii hletter (Bool.not_eq_true _ ▸ hnumber)]
          rfl
        | wide b more code? hb hmore hcode =>
          rw [List.all_eq_true]
          intro x hx
          rcases List.mem_cons.1 hx with rfl | hx
          · exact isPlain_of_le hb
          · exact isPlain_of_le (hmore x hx)

/-! ## Texts -/

/-- What stands between the quotes of a literal is read back. -/
theorem stringBody_quote (s rest : Bytes) :
    stringBody none ((pieces s).flatMap quotePiece ++ 34 :: rest) = some (sanitize s, rest) := by
  have hall : ∀ ps : List Piece, (∀ p ∈ ps, p ∈ pieces s) →
      stringBody none (ps.flatMap quotePiece ++ 34 :: rest) =
        some ((ps.map Piece.mended).flatMap Piece.raw, rest) := by
    intro ps hps
    induction ps with
    | nil => rfl
    | cons p ps ih =>
      obtain ⟨hp, hrest⟩ := List.forall_mem_cons.1 hps
      rw [List.flatMap_cons, List.append_assoc, stringBody_quotePiece hp, ih hrest]
      rfl
  rw [hall (pieces s) fun p hp => hp, Utf8.sanitize_eq_mended]

/-- **A text is read back**, whatever is in it, with stray bytes replaced. -/
theorem string?_quote (s rest : Bytes) :
    string? ((pieces s).flatMap quotePiece ++ 34 :: rest) = some (sanitize s, rest) := by
  simp only [string?, stringBody_quote, Option.map_some, Utf8.sanitize_of_valid (Utf8.valid_sanitize s)]

-- the replacement of a stray byte is written as it is
example : quote [120, 0xFF, 121] = [34, 120, 0xEF, 0xBF, 0xBD, 121, 34] := by decide

/-! ## Objects -/

theorem skipBlank_append {lead : Bytes} (h : lead.all isBlank = true) (s : Bytes) :
    skipBlank (lead ++ s) = skipBlank s :=
  List.dropWhile_append_of_pos (List.all_eq_true.1 h)

theorem skipBlank_cons {b : UInt8} (h : isBlank b = false) (s : Bytes) :
    skipBlank (b :: s) = b :: s := by
  rw [skipBlank, List.dropWhile_cons_of_neg (by rw [h]; exact Bool.false_ne_true)]

theorem quote_append (s rest : Bytes) :
    quote s ++ rest = 34 :: ((pieces s).flatMap quotePiece ++ 34 :: rest) := by
  simp [quote]

/-- The value of a field. -/
theorem value?_quote {lead : Bytes} (hlead : lead.all isBlank = true) (limit depth : Nat)
    (s rest : Bytes) :
    value? (limit + 1) depth (lead ++ (quote s ++ rest)) = some (.text (sanitize s), rest) := by
  rw [value?, skipBlank_append hlead, quote_append, skipBlank_cons (by decide)]
  simp only [string?_quote, Option.map_some]

theorem skipBlank_field {lead : Bytes} (hlead : lead.all isBlank = true) (key value rest : Bytes) :
    skipBlank (lead ++ (field key value ++ rest)) =
      34 :: ((pieces key).flatMap quotePiece ++ 34 :: 58 :: ([32] ++ (quote value ++ rest))) := by
  have hfield : field key value ++ rest =
      [32, 32] ++ (quote key ++ 58 :: ([32] ++ (quote value ++ rest))) := by
    have hindent : bytes "  " = [32, 32] := by decide
    have hcolon : bytes ": " = [58, 32] := by decide
    simp [field, hindent, hcolon]
  rw [hfield, skipBlank_append hlead, skipBlank_append (by decide), quote_append,
    skipBlank_cons (by decide)]

section Field

variable {lead rest next : Bytes} (hlead : lead.all isBlank = true) (key value : Bytes)
include hlead

/-- A field with another one after it. -/
theorem members?_more (hrest : skipBlank rest = 44 :: next) (limit depth : Nat) :
    members? (limit + 2) depth (lead ++ (field key value ++ rest)) =
      (members? (limit + 1) depth next).map fun (fields, rest) =>
        ((sanitize key, .text (sanitize value)) :: fields, rest) := by
  have hspace : ([32] : Bytes).all isBlank = true := by decide
  rw [members?, skipBlank_field hlead]
  simp only [string?_quote, skipBlank_cons (by decide : isBlank 58 = false), value?_quote hspace, hrest]

/-- The last field. -/
theorem members?_last (hrest : skipBlank rest = 125 :: next) (limit depth : Nat) :
    members? (limit + 2) depth (lead ++ (field key value ++ rest)) =
      some ([(sanitize key, .text (sanitize value))], next) := by
  have hspace : ([32] : Bytes).all isBlank = true := by decide
  rw [members?, skipBlank_field hlead]
  simp only [string?_quote, skipBlank_cons (by decide : isBlank 58 = false), value?_quote hspace, hrest]

end Field

/-- The document of texts under keys. -/
def document (members : List (Bytes × Bytes)) : List (Bytes × Document) :=
  members.map fun member => (sanitize member.1, .text (sanitize member.2))

/-- The fields of an object are read one after the other. -/
theorem members?_fields {members : List (Bytes × Bytes)} (hne : members ≠ []) {lead : Bytes}
    (hlead : lead.all isBlank = true) {limit : Nat}
    (hlimit : members.length + 1 ≤ limit) (depth : Nat) (tail : Bytes) :
    members? limit depth (lead ++ (Bytes.join (bytes ",\n")
      (members.map fun member => field member.1 member.2) ++ (bytes "\n\x7d" ++ tail))) = some (document members, tail) := by
  have hcomma : bytes ",\n" = 44 :: [10] := by decide
  have hbrace : bytes "\n\x7d" = [10] ++ [125] := by decide
  have hfeed : ([10] : Bytes).all isBlank = true := by decide
  induction members generalizing lead limit with
  | nil => exact absurd rfl hne
  | cons member more ih =>
    obtain ⟨limit, rfl⟩ : ∃ l, limit = l + 2 := ⟨limit - 2, by simp at hlimit; omega⟩
    cases more with
    | nil =>
      have hrest : skipBlank (bytes "\n\x7d" ++ tail) = 125 :: tail := by
        rw [hbrace, List.append_assoc, skipBlank_append hfeed]
        exact skipBlank_cons (by decide) tail
      exact members?_last hlead member.1 member.2 hrest limit depth
    | cons second more =>
      have hbound : (second :: more).length + 1 ≤ limit + 1 := by
        rw [List.length_cons] at hlimit
        omega
      have hsecond := ih (List.cons_ne_nil _ _) hfeed hbound
      rw [List.map_cons, List.map_cons, Bytes.join, hcomma]
      simp only [List.append_assoc, List.cons_append]
      rw [members?_more hlead _ _ (skipBlank_cons (by decide) _)]
      exact congrArg _ hsecond

/-- White space is passed over wherever reading of an object goes on. -/
theorem members?_skipBlank (limit depth : Nat) (s : Bytes) :
    members? limit depth (skipBlank s) = members? limit depth s := by
  have htwice : skipBlank (skipBlank s) = skipBlank s := List.dropWhile_idempotent _ _
  cases limit with
  | zero => rfl
  | succ limit => rw [members?, members?, htwice]

/-- An object that has fields. -/
theorem value?_object {rest start : Bytes} (hrest : skipBlank rest = 34 :: start) (limit : Nat)
    {depth : Nat} (hdepth : depth < maxDepth) :
    value? (limit + 1) depth (123 :: rest) =
      (members? limit (depth + 1) rest).map fun (fields, rest) => (.object fields, rest) := by
  rw [value?, skipBlank_cons (by decide), ← members?_skipBlank]
  simp only [hrest, if_neg (Nat.not_le.2 hdepth)]
  rfl

/-- The text of an object, as reading goes through it. -/
theorem fields_eq (members : List (Bytes × Bytes)) :
    fields members = 123 :: ([10] ++ (Bytes.join (bytes ",\n")
      (members.map fun member => field member.1 member.2) ++ (bytes "\n\x7d" ++ [10]))) := by
  have hopen : bytes "\x7b\n" = 123 :: [10] := by decide
  have hclose : bytes "\n\x7d\n" = bytes "\n\x7d" ++ [10] := by decide
  rw [fields, hopen, hclose, List.append_assoc]
  rfl

/-- An object has no more fields than its text has bytes. -/
theorem length_le_fields (members : List (Bytes × Bytes)) : members.length ≤ (fields members).length := by
  have hparts := Bytes.length_le_join (by decide : bytes ",\n" ≠ [])
    (members.map fun member => field member.1 member.2)
  rw [List.length_map] at hparts
  rw [fields_eq, List.length_cons, List.length_append, List.length_append]
  omega

/-- **An object of texts is read back**, with its fields in their order. -/
theorem read_fields {members : List (Bytes × Bytes)} (hne : members ≠ []) :
    read (fields members) = .ok (.object (document members)) := by
  have hfeed : ([10] : Bytes).all isBlank = true := by decide
  have hlimit : members.length + 1 ≤ 2 * (fields members).length + 1 := by
    have hlength := length_le_fields members
    omega
  have hfields := members?_fields hne hfeed hlimit (0 + 1) [10]
  obtain ⟨start, hstart⟩ : ∃ start, skipBlank ([10] ++ (Bytes.join (bytes ",\n")
      (members.map fun member => field member.1 member.2) ++ (bytes "\n\x7d" ++ [10]))) = 34 :: start := by
    obtain ⟨member, more, rfl⟩ := List.exists_cons_of_ne_nil hne
    rw [List.map_cons, Bytes.join_cons, List.append_assoc]
    exact ⟨_, skipBlank_field hfeed member.1 member.2 _⟩
  have hvalue := value?_object hstart (2 * (fields members).length + 1) (by decide : 0 < maxDepth)
  rw [hfields, ← fields_eq] at hvalue
  have hsome : skipBlank (fields members) ≠ [] := by
    rw [fields_eq, skipBlank_cons (by decide)]
    exact List.cons_ne_nil _ _
  unfold read
  rw [if_neg hsome, hvalue]
  rfl

end BuildScript.Json
