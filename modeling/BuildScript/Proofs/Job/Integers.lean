import BuildScript.Proofs.Job.FirstFault

/-!
# Integers in the fields of a job

A field for a whole number takes an integer of every kind, if it is not below zero and not too large.

* `Section.natural?_of_lookup`: a field is what is read of its value, or the fault names it.
* `GitConfig.DescribedBy.gives_depth`, `GitConfig.DescribedBy.gives_submodulesDepth`: the depths of a job are
  read from its document.
* `integers_read_exactly`: **an integer is read exactly if it is in range**, and read as itself.
-/

namespace BuildScript

/-- A field for a whole number where something stands: the number is read, or the fault names the field. -/
theorem Section.natural?_of_lookup {s : Section} {key : String} {value : Document}
    (h : s.lookup (bytes key) = some value) :
    (∀ n, s.natural? key = .ok (some n) ↔ value.toUInt? = some n) ∧
    (s.natural? key = .error (.wrongKind (s.dotted (bytes key)) (bytes "an int")) ↔
      ¬ ∃ n, value.toUInt? = some n) := by
  unfold natural? optional
  rw [h]
  dsimp only
  cases value.toUInt? with
  | none => simp
  | some n => simp

variable {doc value : Document} {git : GitConfig}

theorem GitConfig.DescribedBy.gives_depth (h : git.DescribedBy doc)
    (hfound : doc.at? ["config", "git", "depth"] = some value) : value.Gives git.depth := by
  have hdepth := h.depth
  rw [hfound] at hdepth
  exact hdepth

theorem GitConfig.DescribedBy.gives_submodulesDepth (h : git.DescribedBy doc)
    (hfound : doc.at? ["config", "git", "submodules_depth"] = some value) :
    ∃ n, git.submodulesDepth? = some n ∧ value.Gives n := by
  have hdepth := h.submodulesDepth
  rw [hfound] at hdepth
  exact hdepth

/-- **Integers are read exactly.** A value of one of the kinds for integers is read exactly if it stands for an
integer in range, and what is read is that integer: a signed word is read unless it is below zero, an unsigned
word always, and a numeral if it is a sign or none and digits for a number from zero to the greatest signed
word, whatever zeros it begins with and whatever sign a zero has. So a field for a whole number is that number
or a fault, and the depths of a job are the integers that stand in its document. -/
theorem integers_read_exactly :
    (∀ value : Document, value.isIntegral = true →
      ((∃ n, value.toUInt? = some n) ↔ ∃ i, value.Denotes i ∧ value.InRange i) ∧
      ∀ n i, value.toUInt? = some n → value.Denotes i → (n.toNat : Int) = i) ∧
    (∀ i : Int64, (∃ n, (Document.integer i).toUInt? = some n) ↔ 0 ≤ i.toInt) ∧
    (∀ n : UInt64, (Document.natural n).toUInt? = some n) ∧
    (∀ w : Numeral,
      ((∃ n, (Document.numeral w.text).toUInt? = some n) ↔ 0 ≤ w.value ∧ w.value < 2 ^ 63) ∧
      (∀ zeros, (Document.numeral (w.padded zeros).text).toUInt? = (Document.numeral w.text).toUInt?) ∧
      (w.value = 0 → (Document.numeral w.text).toUInt? = some 0)) ∧
    (∀ s : Bytes, 46 ∈ s ∨ 101 ∈ s ∨ 69 ∈ s → (Document.numeral s).toUInt? = none) ∧
    (∀ (s : Section) (key : String) (value : Document), s.lookup (bytes key) = some value →
      value.isIntegral = true →
      (∀ n, s.natural? key = .ok (some n) ↔ value.Denotes n.toNat ∧ value.InRange n.toNat) ∧
      (s.natural? key = .error (.wrongKind (s.dotted (bytes key)) (bytes "an int")) ↔
        ¬ ∃ i, value.Denotes i ∧ value.InRange i)) ∧
    ∀ (doc : Document) (job : Job), Job.ofDocument doc = .ok job →
      (∀ value, doc.at? ["config", "git", "depth"] = some value → value.isIntegral = true →
        value.Denotes job.config.git.depth.toNat) ∧
      ∀ value, doc.at? ["config", "git", "submodules_depth"] = some value → value.isIntegral = true →
        ∃ n, job.config.git.submodulesDepth? = some n ∧ value.Denotes n.toNat := by
  refine ⟨?_, ?_, fun _ => rfl, ?_, fun _ => Document.toUInt?_of_mem, ?_, ?_⟩
  · intro value hkind
    refine ⟨Document.exists_toUInt?_iff hkind, ?_⟩
    intro n i hread hdenotes
    exact ((Document.toUInt?_iff_of_denotes hdenotes).1 hread).2
  · intro i
    rw [Document.exists_toUInt?_of_denotes (.integer i), Document.inRange_integer]
  · intro w
    refine ⟨Document.exists_toUInt?_of_denotes (.numeral w), Document.toUInt?_padded w, ?_⟩
    intro hzero
    have hlimit : (0 : Int) < 2 ^ 63 := by decide
    rw [Document.toUInt?_iff_of_denotes (.numeral w), hzero]
    exact ⟨⟨le_rfl, hlimit⟩, rfl⟩
  · intro s key value hfound hkind
    obtain ⟨hread, hfault⟩ := Section.natural?_of_lookup hfound
    refine ⟨fun n => ?_, ?_⟩
    · rw [hread, Document.toUInt?_eq_some_iff hkind]
    · rw [hfault, Document.exists_toUInt?_iff hkind]
  · intro doc job hjob
    have hgit := (Job.ofDocument_eq_ok_iff.1 hjob).2.config.git
    constructor
    · intro value hfound hkind
      exact ((Document.gives_integral_iff hkind).1 (hgit.gives_depth hfound)).1
    · intro value hfound hkind
      obtain ⟨n, hn, hgives⟩ := hgit.gives_submodulesDepth hfound
      exact ⟨n, hn, ((Document.gives_integral_iff hkind).1 hgives).1⟩

/-- A document with a zero that is marked as below zero, and with the greatest signed word behind zeros. -/
def depthsDocument : Document :=
  .object
    [(bytes "job", .object
        [(bytes "branch", .text []), (bytes "commit", .text []), (bytes "pull_request", .bool false)]),
      (bytes "repository", .object [(bytes "slug", .text []), (bytes "source_url", .text [])]),
      (bytes "config", .object
        [(bytes "git", .object
          [(bytes "depth", .numeral (bytes "-00")),
            (bytes "submodules_depth", .numeral (bytes "+009223372036854775807"))])])]

/-- The job that it describes. -/
def depthsJob : Job :=
  ⟨⟨[], [], none, false⟩, ⟨[], []⟩, ⟨[], ⟨0, true, some 9223372036854775807, GitConfig.clone⟩, []⟩, false,
    false, false⟩

/-- An integer below zero, which would be a large unsigned word, in a field. -/
def belowZero : Section := ⟨bytes "git", [(bytes "depth", .integer (-1))]⟩

theorem integers_read_exactly_edge :
    Job.ofDocument depthsDocument = .ok depthsJob ∧
    (Document.numeral (bytes "-00")).Denotes depthsJob.config.git.depth.toNat ∧
    (∃ n, depthsJob.config.git.submodulesDepth? = some n ∧
      (Document.numeral (bytes "+009223372036854775807")).Denotes n.toNat) ∧
    belowZero.natural? "depth" = .error (.wrongKind (bytes "git.depth") (bytes "an int")) ∧
    tooLarge.text = bytes "9223372036854775808" ∧
    (¬ ∃ n, (Document.numeral tooLarge.text).toUInt? = some n) ∧
    (Document.numeral (bytes "1e3")).toUInt? = none := by
  obtain ⟨-, -, -, hnumeral, hmark, hfield, hjob⟩ := integers_read_exactly
  have hread : Job.ofDocument depthsDocument = .ok depthsJob := by decide +kernel
  obtain ⟨hdepth, hbound⟩ := hjob depthsDocument depthsJob hread
  have hnone : ¬ ∃ i, (Document.integer (-1)).Denotes i ∧ (Document.integer (-1)).InRange i := by
    rintro ⟨i, hi, hrange⟩
    cases hi
    exact absurd hrange.1 (by decide)
  have hvalue : tooLarge.value = 2 ^ 63 := by decide +kernel
  refine ⟨hread, hdepth _ rfl rfl, hbound _ rfl rfl, ?_, by decide +kernel, ?_, hmark _ (by decide)⟩
  · exact (hfield belowZero "depth" (.integer (-1)) rfl rfl).2.2 hnone
  · rw [(hnumeral tooLarge).1, hvalue]
    decide

end BuildScript
