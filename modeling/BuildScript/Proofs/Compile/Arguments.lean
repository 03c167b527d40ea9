import BuildScript.Compile.Checkout
import BuildScript.Proofs.Shell.Nesting
import BuildScript.Proofs.Text.Numerals

/-!
# The arguments of a checkout

The commands that bring the source of a job are put together from fixed text and texts of the job. What
is escaped on the way stays where it was put: the shell reads it as a word, or as the end of one, and
goes on with the fixed text after it.

* `Policy.option`: a reader that takes no byte with a meaning to the shell, but the mark between an option
  and its value.
* `IsCommand`: a text that is one command with some words, for a lenient reader and for that one.
* `Token`: fixed text before an escaped text. `isCommand_tokens`: **tokens in a row are one command, with
  a word for each of them.**
* `Statement.rawTexts`: the texts that a statement hands to the shell as they are.
* `checkout_arguments_read`: what the shell reads of the commands that bring the source.
-/

namespace BuildScript

/-- The text of a command that is shell text already. -/
def Command.rawText? : Command → Option Bytes
  | raw text => some text
  | _ => none

/-- The texts that a statement hands to the shell as they are, from left to right. -/
def Statement.rawTexts (s : Statement) : List Bytes := s.actions.filterMap (·.command.rawText?)

namespace Shell

open Reader

/-- Outside quotes, only plain bytes and the mark before the value of an option may. A line feed has to be
between quotes. -/
def Policy.option : Policy
  | .bare, b => isPlain b || b = 61
  | .quoted, _ => true
  | .escaped, b => b ≠ 10

theorem tight_le_option (m : Mode) (b : UInt8) (h : Policy.tight m b = true) :
    Policy.option m b = true := by
  cases m with
  | bare =>
    have hplain : isPlain b = true := h
    rw [Policy.option, hplain, Bool.true_or]
  | quoted => rfl
  | escaped => exact h

/-- A text that is one command with these words: for a lenient reader, and for one that takes no byte with
a meaning to the shell. -/
structure IsCommand (text : Bytes) (words : List Bytes) : Prop where
  lenient : words? .lenient text = some words
  option : commands? .option text = some [words]

/-- Whether a byte means itself in the fixed text of an option. -/
def isOptionByte (b : UInt8) : Bool := Word.isSafe b.toNat || b = 61

theorem option_of_isOptionByte {b : UInt8} (h : isOptionByte b = true) :
    isOrdinary b = true ∧ Policy.option .bare b = true := by
  rw [isOptionByte, Bool.or_eq_true, decide_eq_true_eq] at h
  rcases h with hsafe | rfl
  · have hplain := isPlain_of_isSafe hsafe
    exact ⟨isOrdinary_of_isPlain hplain, tight_le_option .bare b hplain⟩
  · exact ⟨by decide, by rw [Policy.option, decide_eq_true rfl, Bool.or_true]⟩

/-- A part of a command: fixed text, and a text that is escaped behind it. -/
structure Token where
  fixed : Bytes
  value? : Option Bytes

namespace Token

/-- The token as it is written. -/
def written (t : Token) : Bytes := t.fixed ++ (t.value?.map Word.escape).getD []

/-- The word that the token stands for. -/
def word (t : Token) : Bytes := t.fixed ++ t.value?.getD []

/-- The fixed text means itself, and there is something to be read. -/
structure IsSound (t : Token) : Prop where
  plain : t.fixed.all isOptionByte = true
  present : t.fixed ≠ [] ∨ t.value? ≠ none

/-- **A token is read as its word**, whatever its value is. -/
theorem reads_written {t : Token} (h : t.IsSound) : Reads .option t.written t.word := by
  obtain ⟨fixed, value?⟩ := t
  have hfixed : fixed ≠ [] → Reads .option fixed fixed := by
    intro hne
    have hbytes : ∀ b ∈ fixed, isOptionByte b = true := List.all_eq_true.1 h.plain
    apply Reads.ordinary hne
    · exact fun b hb => (option_of_isOptionByte (hbytes b hb)).1
    · exact fun b hb => (option_of_isOptionByte (hbytes b hb)).2
  cases value? with
  | none =>
    have hne : fixed ≠ [] := h.present.resolve_right (fun hnone => hnone rfl)
    simpa [written, word] using hfixed hne
  | some value =>
    have hvalue : Reads .option (Word.escape value) value :=
      (reads_escape_tight value).mono tight_le_option
    by_cases hne : fixed = []
    · simpa [written, word, hne] using hvalue
    · exact (hfixed hne).append hvalue

end Token

/-- **Tokens in a row are one command**, with a word for each of them. -/
theorem isCommand_tokens {tokens : List Token} (h : ∀ t ∈ tokens, t.IsSound) :
    IsCommand (Bytes.join [32] (tokens.map Token.written)) (tokens.map Token.word) := by
  have hreads : List.Forall₂ (Reads .option) (tokens.map Token.written) (tokens.map Token.word) := by
    rw [List.forall₂_map_left_iff, List.forall₂_map_right_iff, List.forall₂_same]
    intro t ht
    exact Token.reads_written (h t ht)
  have hoption := commands?_join hreads
  have hlenient : commands? .lenient (Bytes.join [32] (tokens.map Token.written)) =
      some [tokens.map Token.word] :=
    commands?_mono (fun _ _ _ => rfl) hoption
  refine ⟨?_, hoption⟩
  rw [words?, hlenient]
  simp

theorem isSound_fixed {text : String}
    (h : (bytes text != [] && (bytes text).all isOptionByte) = true) (value? : Option Bytes) :
    Token.IsSound ⟨bytes text, value?⟩ := by
  rw [Bool.and_eq_true, bne_iff_ne] at h
  exact ⟨h.2, Or.inl h.1⟩

theorem isSound_value (value : Bytes) : Token.IsSound ⟨[], some value⟩ :=
  ⟨rfl, Or.inr (Option.some_ne_none value)⟩

/-- Text of characters that mean themselves needs no quoting. -/
theorem isSound_safe {text : Bytes} (hne : text ≠ [])
    (hsafe : (text.all fun b => Word.isSafe b.toNat) = true) : Token.IsSound ⟨text, none⟩ := by
  refine ⟨?_, Or.inl hne⟩
  rw [List.all_eq_true] at hsafe ⊢
  intro b hb
  rw [isOptionByte, hsafe b hb, Bool.true_or]

/-- The number in an option is made of digits. -/
theorem isSound_number {text : String}
    (h : (bytes text != [] && (bytes text).all isOptionByte) = true) (n : Nat) :
    Token.IsSound ⟨bytes text ++ Bytes.ofNat n, none⟩ := by
  have hdigit : ∀ d < 10, isOptionByte (Bytes.hexDigit d) = true := by decide
  have hnumeral : (Bytes.ofNat n).all isOptionByte = true := by
    rw [List.all_eq_true]
    intro b hb
    obtain ⟨d, hd, rfl⟩ := Bytes.mem_ofNat hb
    exact hdigit d hd
  have hname := isSound_fixed h none
  refine ⟨?_, Or.inl (List.append_ne_nil_of_right_ne_nil _ (Bytes.ofNat_ne_nil n))⟩
  rw [List.all_append, hname.plain, hnumeral, Bool.and_self]

end Shell

namespace Checkout

open Shell

/-- The tokens of the command that fetches an archive. -/
def curlTokens (job : Job) : List Token :=
  [⟨bytes "curl", none⟩, ⟨bytes "-o", none⟩, ⟨[], some (archiveName job.repository.slug)⟩,
    ⟨bytes "-L", none⟩, ⟨[], some (archiveUrl job)⟩]

/-- The tokens of the command that unpacks an archive. -/
def tarTokens (job : Job) : List Token :=
  [⟨bytes "tar", none⟩, ⟨bytes "xfz", none⟩, ⟨[], some (archiveName job.repository.slug)⟩,
    ⟨bytes "--strip-components=1", none⟩, ⟨bytes "-C", none⟩, ⟨[], some job.repository.slug⟩]

/-- The tokens that name the branch to clone. -/
def branchTokens (job : Job) : List Token :=
  if job.revision.ref?.isSome then [] else [⟨bytes "--branch=", some job.revision.branch⟩]

/-- The tokens of the command that clones a repository. -/
def cloneTokens (job : Job) : List Token :=
  [⟨bytes "git", none⟩, ⟨bytes "clone", none⟩,
    ⟨bytes "--depth=" ++ Bytes.ofNat job.config.git.depth.toNat, none⟩]
    ++ branchTokens job ++ [⟨job.repository.sourceUrl, none⟩, ⟨job.repository.slug, none⟩]

theorem isSound_curlTokens (job : Job) : ∀ t ∈ curlTokens job, t.IsSound := by
  simp only [curlTokens, List.forall_mem_cons, List.not_mem_nil, false_implies, implies_true, and_true]
  exact ⟨isSound_fixed (by decide) _, isSound_fixed (by decide) _, isSound_value _,
    isSound_fixed (by decide) _, isSound_value _⟩

theorem isSound_tarTokens (job : Job) : ∀ t ∈ tarTokens job, t.IsSound := by
  simp only [tarTokens, List.forall_mem_cons, List.not_mem_nil, false_implies, implies_true, and_true]
  exact ⟨isSound_fixed (by decide) _, isSound_fixed (by decide) _, isSound_value _,
    isSound_fixed (by decide) _, isSound_fixed (by decide) _, isSound_value _⟩

theorem isSound_branchTokens (job : Job) : ∀ t ∈ branchTokens job, t.IsSound := by
  intro t ht
  unfold branchTokens at ht
  split at ht
  · cases ht
  · rw [List.mem_singleton.1 ht]
    exact isSound_fixed (by decide) _

theorem isSound_cloneTokens {job : Job} (hurl : Token.IsSound ⟨job.repository.sourceUrl, none⟩)
    (hslug : Token.IsSound ⟨job.repository.slug, none⟩) : ∀ t ∈ cloneTokens job, t.IsSound := by
  have hbranch := isSound_branchTokens job
  simp only [cloneTokens, List.forall_mem_append, List.forall_mem_cons, List.not_mem_nil, false_implies,
    implies_true, and_true]
  exact ⟨⟨⟨isSound_fixed (by decide) _, isSound_fixed (by decide) _, isSound_number (by decide) _⟩,
    hbranch⟩, hurl, hslug⟩

/-- The text of each command is its tokens in a row. -/
theorem text_curlTokens (job : Job) :
    bytes "curl -o " ++ Word.escape (archiveName job.repository.slug) ++ bytes " -L "
      ++ Word.escape (archiveUrl job) = Bytes.join [32] ((curlTokens job).map Token.written) := by
  have hcurl : bytes "curl -o " = bytes "curl" ++ [32] ++ bytes "-o" ++ [32] := by decide
  have hflag : bytes " -L " = [32] ++ bytes "-L" ++ [32] := by decide
  rw [hcurl, hflag]
  simp [curlTokens, Token.written, Bytes.join]

theorem text_tarTokens (job : Job) :
    bytes "tar xfz " ++ Word.escape (archiveName job.repository.slug)
      ++ bytes " --strip-components=1 -C " ++ Word.escape job.repository.slug =
        Bytes.join [32] ((tarTokens job).map Token.written) := by
  have htar : bytes "tar xfz " = bytes "tar" ++ [32] ++ bytes "xfz" ++ [32] := by decide
  have hflags : bytes " --strip-components=1 -C " =
      [32] ++ bytes "--strip-components=1" ++ [32] ++ bytes "-C" ++ [32] := by decide
  rw [htar, hflags]
  simp [tarTokens, Token.written, Bytes.join]

theorem text_cloneTokens (job : Job) :
    bytes "git clone " ++ cloneOptions job ++ bytes " " ++ job.repository.sourceUrl ++ bytes " "
      ++ job.repository.slug = Bytes.join [32] ((cloneTokens job).map Token.written) := by
  have hgit : bytes "git clone " = bytes "git" ++ [32] ++ bytes "clone" ++ [32] := by decide
  have hblank : bytes " " = [32] := by decide
  have hbranch : bytes " --branch=" = [32] ++ bytes "--branch=" := by decide
  rw [hgit, hblank, cloneOptions, hbranch]
  cases hfetched : job.revision.ref?.isSome with
  | true => simp [cloneTokens, branchTokens, hfetched, Token.written, Bytes.join]
  | false => simp [cloneTokens, branchTokens, hfetched, Token.written, Bytes.join]

/-! ## The commands in the tree of a checkout -/

/-- A checkout that fetches an archive hands two texts to the shell. -/
theorem rawTexts_tarball {job : Job} (htarball : job.config.git.strategy = GitConfig.tarball) :
    (statement job).rawTexts =
      [Bytes.join [32] ((curlTokens job).map Token.written),
        Bytes.join [32] ((tarTokens job).map Token.written)] := by
  have h : isTarball job = true := isTarball_iff.2 htarball
  have hfetch : fetch job = tarball job := if_pos h
  have href : fetchRef job = .noop := by
    unfold fetchRef
    split
    · rfl
    · exact if_pos h
  have hcheckout : checkout job = .noop := if_pos h
  have hsubmodules : submodules job = .noop := by
    unfold submodules
    rw [h, Bool.or_true, if_pos rfl]
  rw [← text_curlTokens, ← text_tarTokens, statement, hfetch, href, hcheckout, hsubmodules]
  rfl

/-- A checkout that clones hands the command that clones to the shell first. -/
theorem head?_rawTexts_clone {job : Job} (hclone : job.config.git.strategy ≠ GitConfig.tarball) :
    (statement job).rawTexts.head? = some (Bytes.join [32] ((cloneTokens job).map Token.written)) := by
  have hfetch : fetch job = clone job := if_neg (isTarball_iff.not.2 hclone)
  rw [← text_cloneTokens, statement, hfetch]
  rfl

end Checkout

open Shell Checkout

/-- **What is escaped stays where it was put.** A checkout that fetches an archive hands two texts to the
shell, and the shell reads the slug and the commit of the job in them as they are, whatever bytes they
hold. A checkout that clones hands the command that clones to the shell first. If the slug and the address
are made of characters that mean themselves, the shell reads them, the depth and the branch, whatever bytes
the branch holds. -/
theorem checkout_arguments_read (job : Job) :
    (job.config.git.strategy = GitConfig.tarball → ∃ fetching unpacking,
      (Checkout.statement job).rawTexts = [fetching, unpacking] ∧
      let archive := Bytes.replaceByte 47 45 job.repository.slug ++ bytes ".tar.gz"
      IsCommand fetching [bytes "curl", bytes "-o", archive, bytes "-L",
        bytes "https://api.github.com/repos/" ++ job.repository.slug ++ bytes "/tarball/"
          ++ job.revision.commit] ∧
      IsCommand unpacking [bytes "tar", bytes "xfz", archive, bytes "--strip-components=1", bytes "-C",
        job.repository.slug]) ∧
    (job.config.git.strategy ≠ GitConfig.tarball →
      job.repository.sourceUrl ≠ [] → (job.repository.sourceUrl.all fun b => Word.isSafe b.toNat) = true →
      job.repository.slug ≠ [] → (job.repository.slug.all fun b => Word.isSafe b.toNat) = true →
      ∃ cloning digits, (Checkout.statement job).rawTexts.head? = some cloning ∧
        digits = Bytes.ofNat job.config.git.depth.toNat ∧
        Bytes.toNat? digits = some job.config.git.depth.toNat ∧
        IsCommand cloning
          (match job.revision.ref? with
          | some _ => [bytes "git", bytes "clone", bytes "--depth=" ++ digits, job.repository.sourceUrl,
              job.repository.slug]
          | none => [bytes "git", bytes "clone", bytes "--depth=" ++ digits,
              bytes "--branch=" ++ job.revision.branch, job.repository.sourceUrl,
              job.repository.slug])) := by
  refine ⟨fun htarball => ?_, fun hclone hurl hsafeUrl hslug hsafeSlug => ?_⟩
  · have hcurl := isCommand_tokens (isSound_curlTokens job)
    have htar := isCommand_tokens (isSound_tarTokens job)
    refine ⟨_, _, rawTexts_tarball htarball, ?_, ?_⟩
    · simpa [curlTokens, Token.word, archiveName, archiveUrl, Path.slash] using hcurl
    · simpa [tarTokens, Token.word, archiveName, Path.slash] using htar
  · have hsound := isSound_cloneTokens (isSound_safe hurl hsafeUrl) (isSound_safe hslug hsafeSlug)
    refine ⟨_, _, head?_rawTexts_clone hclone, rfl, Bytes.toNat?_ofNat _, ?_⟩
    have hcommand := isCommand_tokens hsound
    cases href : job.revision.ref? with
    | some ref => simpa [cloneTokens, branchTokens, href, Token.word] using hcommand
    | none => simpa [cloneTokens, branchTokens, href, Token.word] using hcommand

/-- A job with the bytes of the shell's grammar in its slug and its commit. -/
def hostileArchiveJob : Job :=
  { Job.sample with
    revision := { Job.sample.revision with commit := bytes ";rm" }
    repository := ⟨bytes "a b/$(c)'\n", []⟩
    config := ⟨[], { GitConfig.default with strategy := GitConfig.tarball }, []⟩ }

/-- A job with the bytes of the shell's grammar in its branch. -/
def hostileBranchJob : Job :=
  { Job.sample with
    revision := { Job.sample.revision with branch := bytes "it's;\n" }
    repository := ⟨bytes "a/b", bytes "git@host:a"⟩ }

theorem checkout_arguments_read_hostile :
    hostileArchiveJob.config.git.strategy = GitConfig.tarball ∧
    hostileBranchJob.config.git.strategy ≠ GitConfig.tarball ∧
    (∃ fetching unpacking, (Checkout.statement hostileArchiveJob).rawTexts = [fetching, unpacking] ∧
      IsCommand fetching [bytes "curl", bytes "-o", bytes "a b-$(c)'\n.tar.gz", bytes "-L",
        bytes "https://api.github.com/repos/" ++ bytes "a b/$(c)'\n" ++ bytes "/tarball/" ++ bytes ";rm"] ∧
      IsCommand unpacking [bytes "tar", bytes "xfz", bytes "a b-$(c)'\n.tar.gz",
        bytes "--strip-components=1", bytes "-C", bytes "a b/$(c)'\n"]) ∧
    ∃ cloning, (Checkout.statement hostileBranchJob).rawTexts.head? = some cloning ∧
      IsCommand cloning [bytes "git", bytes "clone", bytes "--depth=50", bytes "--branch=it's;\n",
        bytes "git@host:a", bytes "a/b"] := by
  have harchive : hostileArchiveJob.config.git.strategy = GitConfig.tarball := by decide
  have hbranch : hostileBranchJob.config.git.strategy ≠ GitConfig.tarball := by decide
  obtain ⟨fetching, unpacking, htexts, hfetching, hunpacking⟩ :=
    (checkout_arguments_read hostileArchiveJob).1 harchive
  obtain ⟨cloning, digits, hhead, rfl, -, hcloning⟩ :=
    (checkout_arguments_read hostileBranchJob).2 hbranch (by decide) (by decide) (by decide) (by decide)
  have hname : Bytes.replaceByte 47 45 hostileArchiveJob.repository.slug ++ bytes ".tar.gz" =
      bytes "a b-$(c)'\n.tar.gz" := by decide
  have hdepth : bytes "--depth=" ++ Bytes.ofNat hostileBranchJob.config.git.depth.toNat =
      bytes "--depth=50" := by decide
  have hoption : bytes "--branch=" ++ hostileBranchJob.revision.branch = bytes "--branch=it's;\n" := by
    decide
  rw [hname] at hfetching
  rw [hname] at hunpacking
  simp only [hdepth, hoption] at hcloning
  exact ⟨harchive, hbranch, ⟨fetching, unpacking, htexts, hfetching, hunpacking⟩, cloning, hhead, hcloning⟩

end BuildScript
