import BuildScript.Proofs.Shell.Reader
import BuildScript.Proofs.Text.Pieces
import BuildScript.Shell.Word

/-!
# Escaped words are read back

`Word.escape` goes through a text character by character, the reader goes through the word byte by
byte. They are kept in step by what a piece of a text can be: an ASCII byte, or bytes outside ASCII,
which mean nothing to the shell.

* `reads_escapePiece`: a piece is read as its bytes.
* `reads_escape_tight`: **an escaped text is read as the text**, under the strictest policy there is.
* `activeBytes`: what the shell acts on; in an escaped text these are plain bytes only.
-/

namespace BuildScript.Shell

open Reader

variable {p : Policy}

/-- The least that escaped texts need: plain bytes outside quotes, line feeds between quotes, and
anything but a line feed after a backslash. -/
def Policy.tight : Policy
  | .bare, b => isPlain b
  | .quoted, b => b = 10
  | .escaped, b => b ≠ 10

theorem isOrdinary_of_isPlain {b : UInt8} (h : isPlain b = true) : isOrdinary b = true := by
  have hword : wordBytes.all isOrdinary = true := by decide
  simp only [isPlain, Bool.or_eq_true, List.contains_iff_mem, decide_eq_true_eq] at h
  rcases h with h | h
  · exact List.all_eq_true.1 hword b h
  · by_contra hb
    simp only [isOrdinary, Bool.and_eq_true, bne_iff_ne, not_and_or, not_not] at hb
    rcases hb with (((rfl | rfl) | rfl) | rfl) | rfl <;> revert h <;> decide

/-- Bytes outside ASCII are plain. -/
theorem isPlain_of_le {b : UInt8} (h : 0x80 ≤ b) : isPlain b = true := by
  simp [isPlain, h]

/-- The characters that mean themselves in a word are plain. -/
theorem isPlain_of_isSafe {b : UInt8} (h : Word.isSafe b.toNat = true) : isPlain b = true := by
  by_cases hb : b < 0x80
  · -- the two ways of listing the characters are compared one by one
    have hascii : ∀ n < 128, Word.isSafe n = true → isPlain n.toUInt8 = true := by decide +kernel
    have hplain := hascii b.toNat (UInt8.lt_iff_toNat_lt.1 hb) h
    rwa [Nat.toUInt8_eq, UInt8.ofNat_toNat] at hplain
  · exact isPlain_of_le (UInt8.not_lt.1 hb)

theorem ne_lineEnd_of_le {b : UInt8} (h : 0x80 ≤ b) : b ≠ 10 := by
  rintro rfl; revert h; decide

theorem not_isSafe_of_le {c : Nat} (h : 0x80 ≤ c) : Word.isSafe c = false := by
  simp only [Word.isSafe, Bool.or_eq_false_iff, Bool.and_eq_false_iff, decide_eq_false_iff_not]
  omega

/-- Plain bytes are read as themselves. -/
theorem reads_plain {text : Bytes} (hne : text ≠ []) (h : ∀ b ∈ text, isPlain b = true) :
    Reads .tight text text :=
  Reads.ordinary hne (fun b hb => isOrdinary_of_isPlain (h b hb)) h

/-- A backslash is read as the byte after it. -/
theorem reads_backslash {b : UInt8} (hb : b ≠ 10) : Reads .tight [92, b] [b] := by
  intro r hm
  simp [step, hm, Policy.tight, hb, extend]

/-- A line feed between quotes is read as a line feed. -/
theorem reads_quotedLineEnd : Reads .tight [39, 10, 39] [10] := by
  intro r hm
  simp [step, hm, Policy.tight, extend]

/-- A pair of quotes is read as a word without bytes. -/
theorem reads_quotes : Reads .tight [39, 39] [] := by
  intro r hm
  simp [step, hm, extend]

/-- How the three kinds of pieces are written. -/
theorem escapePiece_cases {piece : Utf8.Piece} (h : piece.WellFormed) :
    (Word.escapePiece piece = piece.raw ∧ piece.raw ≠ [] ∧ ∀ b ∈ piece.raw, isPlain b = true) ∨
      (Word.escapePiece piece = [39, 10, 39] ∧ piece.raw = [10]) ∨
      (∃ b tail, piece.raw = b :: tail ∧ Word.escapePiece piece = 92 :: b :: tail ∧ b ≠ 10 ∧
        ∀ t ∈ tail, isPlain t = true) := by
  cases h with
  | ascii b hb =>
    by_cases hs : Word.isSafe b.toNat = true
    · exact Or.inl ⟨by simp [Word.escapePiece, hs], by simp, by simpa using isPlain_of_isSafe hs⟩
    · by_cases h10 : b = 10
      · subst h10
        exact Or.inr (Or.inl ⟨by decide, rfl⟩)
      · have hn : b.toNat ≠ 10 := fun hn => h10 (UInt8.toNat_inj.mp hn)
        exact Or.inr (Or.inr ⟨b, [], rfl, by simp [Word.escapePiece, hs, hn], h10, by simp⟩)
  | wide b tail code? hb htail hcode =>
    refine Or.inr (Or.inr ⟨b, tail, rfl, ?_, ne_lineEnd_of_le hb, fun t ht => isPlain_of_le (htail t ht)⟩)
    -- a code outside ASCII is neither safe nor a line feed, so the piece gets a backslash
    cases code? with
    | none => rfl
    | some c =>
      have hc := hcode c rfl
      simp [Word.escapePiece, not_isSafe_of_le hc, show c ≠ 10 by omega]

/-- **A piece is read as its bytes.** -/
theorem reads_escapePiece {piece : Utf8.Piece} (h : piece.WellFormed) :
    Reads .tight (Word.escapePiece piece) piece.raw := by
  rcases escapePiece_cases h with ⟨he, hne, hplain⟩ | ⟨he, hraw⟩ | ⟨b, tail, hraw, he, hb, htail⟩
  · rw [he]; exact reads_plain hne hplain
  · rw [he, hraw]; exact reads_quotedLineEnd
  · rw [he, hraw]
    cases tail with
    | nil => exact reads_backslash hb
    | cons t tail => exact (reads_backslash hb).append (reads_plain (List.cons_ne_nil t tail) htail)

/-- **An escaped text is read as the text.** -/
theorem reads_escape_tight (s : Bytes) : Reads .tight (Word.escape s) s := by
  unfold Word.escape
  split
  · rename_i hs; subst hs; exact reads_quotes
  · rename_i hs
    have h := Reads.flatMap (Utf8.pieces_ne_nil hs) fun piece hp =>
      reads_escapePiece (Utf8.wellFormed_pieces hp)
    rwa [Utf8.pieces_raw] at h

theorem tight_le_strict (m : Mode) (b : UInt8) (h : Policy.tight m b = true) :
    Policy.strict m b = true := by
  cases m with
  | bare => exact h
  | quoted => rfl
  | escaped => rfl

/-- The bytes that the shell acts on: those outside quotes, the quoting marks themselves apart. -/
def activeBytes : Mode → Bytes → Bytes
  | _, [] => []
  | .quoted, b :: rest => activeBytes (if b = 39 then .bare else .quoted) rest
  | .escaped, _ :: rest => activeBytes .bare rest
  | .bare, b :: rest =>
    if b = 39 then activeBytes .quoted rest
    else if b = 92 then activeBytes .escaped rest
    else b :: activeBytes .bare rest

theorem activeBytes_plain_append {text : Bytes} (h : ∀ b ∈ text, isPlain b = true) (rest : Bytes) :
    activeBytes .bare (text ++ rest) = text ++ activeBytes .bare rest := by
  induction text with
  | nil => rfl
  | cons b text ih =>
    have hb := isOrdinary_of_isPlain (h b List.mem_cons_self)
    simp only [isOrdinary, Bool.and_eq_true, bne_iff_ne] at hb
    rw [List.cons_append, activeBytes, if_neg hb.1.1.1.1, if_neg hb.1.1.1.2,
      ih fun x hx => h x (List.mem_cons_of_mem b hx), List.cons_append]

/-- A piece adds only plain bytes to what the shell acts on. -/
theorem activeBytes_escapePiece {piece : Utf8.Piece} (h : piece.WellFormed) (rest : Bytes) :
    ∃ plain : Bytes, (∀ b ∈ plain, isPlain b = true) ∧
      activeBytes .bare (Word.escapePiece piece ++ rest) = plain ++ activeBytes .bare rest := by
  rcases escapePiece_cases h with ⟨he, -, hplain⟩ | ⟨he, -⟩ | ⟨b, tail, -, he, -, htail⟩
  · exact ⟨piece.raw, hplain, by rw [he, activeBytes_plain_append hplain]⟩
  · exact ⟨[], by simp, by simp [he, activeBytes]⟩
  · refine ⟨tail, htail, ?_⟩
    rw [he, ← activeBytes_plain_append htail]
    simp [activeBytes]

theorem activeBytes_escapePieces {pieces : List Utf8.Piece} (h : ∀ piece ∈ pieces, piece.WellFormed) :
    (activeBytes .bare (pieces.flatMap Word.escapePiece)).all isPlain = true := by
  induction pieces with
  | nil => rfl
  | cons piece pieces ih =>
    obtain ⟨plain, hplain, heq⟩ :=
      activeBytes_escapePiece (h piece List.mem_cons_self) (pieces.flatMap Word.escapePiece)
    have hrest := ih fun x hx => h x (List.mem_cons_of_mem piece hx)
    rw [List.flatMap_cons, heq, List.all_append, Bool.and_eq_true]
    exact ⟨List.all_eq_true.2 hplain, hrest⟩

/-- **The shell acts on plain bytes only** in an escaped text. -/
theorem activeBytes_escape (s : Bytes) : (activeBytes .bare (Word.escape s)).all isPlain = true := by
  unfold Word.escape
  split
  · rfl
  · exact activeBytes_escapePieces fun piece hp => Utf8.wellFormed_pieces hp

/-- Escaped texts in a row are read as the texts. -/
theorem forall₂_reads_escape (h : ∀ m b, Policy.tight m b = true → p m b = true) (ws : List Bytes) :
    List.Forall₂ (Reads p) (ws.map Word.escape) ws := by
  induction ws with
  | nil => exact .nil
  | cons w ws ih => exact .cons ((reads_escape_tight w).mono h) ih

/-- **Escaping is undone by reading.** Escaped texts with blanks between them are read, by the strict
reader, as exactly the texts. So an escaped text is one word, in which the shell acts on plain bytes
only, and different texts have different escaped forms. -/
theorem escape_read_back :
    (∀ ws : List Bytes, words? .strict (Bytes.join [32] (ws.map Word.escape)) = some ws) ∧
      (∀ w : Bytes, commands? .strict (Word.escape w) = some [[w]] ∧
        (activeBytes .bare (Word.escape w)).all isPlain = true) ∧
      Function.Injective Word.escape := by
  have hone : ∀ w : Bytes, commands? .strict (Word.escape w) = some [[w]] := fun w => by
    simpa [Bytes.join] using commands?_join (forall₂_reads_escape tight_le_strict [w])
  refine ⟨fun ws => ?_, fun w => ⟨hone w, activeBytes_escape w⟩, fun a b hab => ?_⟩
  · rw [words?, commands?_join (forall₂_reads_escape tight_le_strict ws)]; simp
  · have h := hone a
    rw [hab, hone b] at h
    simpa using h.symm

end BuildScript.Shell
