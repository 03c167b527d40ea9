import BuildScript.Store.Basic
import BuildScript.Proofs.Digest.Unambiguous
import BuildScript.Proofs.Path.Absolute
import BuildScript.Proofs.Shell.Paths

/-!
# Which jobs compile

The tree of a job is complete, and every path in it is fixed or made from the slug of the repository.
So only the name of the language and the slug decide whether a job has a script.

* `isPathText_gitDir`, `isPathText_archiveName`: what is made from a slug can be written if the slug
  can.
* `Statement.Names`: a complete statement with some paths; `Script.names_treeIn`: the tree of a job is
  one, with the paths of the checkout.
* `Script.compile_ok`: what is there when compiling succeeds. `Script.ends_compile`: **the three ways in
  which compiling ends.**
* `compiles_exactly`: which jobs compile, and what is left in a store by those that do not.
-/

namespace BuildScript

/-! ## What is made from a slug -/

theorem isPathText_gitDir {slug : Bytes} (h : isPathText slug = true) :
    isPathText (Path.join [slug, bytes ".git"]) = true := by
  by_cases hslug : slug = []
  · subst hslug
    decide
  · rw [Path.join_pair hslug (by decide)]
    apply Path.isPathText_clean
    rw [isPathText_append (by decide) (by decide), h]
    decide

theorem isPathText_archiveName {slug : Bytes} (h : isPathText slug = true) :
    isPathText (Checkout.archiveName slug) = true := by
  have hname : isPathText (Bytes.replaceByte Path.slash 45 slug) = true := by
    rw [Bytes.replaceByte_eq_join, isPathText_join (by decide) (by decide),
      isPathText_splitOn (by decide) (by decide), h]
  have hdot : bytes ".tar.gz" = 46 :: bytes "tar.gz" := by decide
  rw [Checkout.archiveName, hdot, isPathText_append (by decide) (by decide), hname]
  decide

/-! ## The tree of a job -/

namespace Statement

/-- A complete statement with these paths. -/
structure Names (s : Statement) (ps : List Bytes) : Prop where
  complete : s.isComplete = true
  paths : s.paths = ps

variable {s : Statement} {rest : List Statement} {ps qs : List Bytes}

theorem Names.cons (hs : s.Names ps) (hrest : (sequence rest).Names qs) :
    (sequence (s :: rest)).Names (ps ++ qs) := by
  constructor
  · rw [isComplete, areComplete, hs.complete, Bool.true_and]
    exact hrest.complete
  · rw [Statement.paths, pathsEach, hs.paths]
    exact congrArg (ps ++ ·) hrest.paths

theorem pathsEach_filter (statements : List Statement) :
    pathsEach (statements.filter fun s => !s.isNoop) = pathsEach statements := by
  induction statements with
  | nil => rfl
  | cons s rest ih =>
    cases h : s.isNoop with
    | true => simp [h, pathsEach, paths_of_isNoop h, ih]
    | false => simp [h, pathsEach, ih]

theorem areComplete_filter (statements : List Statement) :
    areComplete (statements.filter fun s => !s.isNoop) = areComplete statements := by
  induction statements with
  | nil => rfl
  | cons s rest ih =>
    cases h : s.isNoop with
    | true => simp [h, areComplete, isComplete_of_isNoop h, ih]
    | false => simp [h, areComplete, ih]

/-- A stage names what its statements name. -/
theorem Names.stage {statements : List Statement} (h : (sequence statements).Names ps) :
    (Script.stage statements).Names ps := by
  have hkept : (sequence (statements.filter fun s => !s.isNoop)).Names ps := by
    constructor
    · rw [isComplete, areComplete_filter]
      exact h.complete
    · rw [Statement.paths, pathsEach_filter]
      exact h.paths
  rw [Script.stage]
  split
  · next hempty =>
    rw [List.isEmpty_iff.1 hempty] at hkept
    exact ⟨rfl, hkept.paths⟩
  · exact hkept

end Statement

open Statement

theorem Services.names_statement (job : Job) : (statement job).Names [] := by
  have hall : ∀ services : List Bytes, (sequence (services.map start)).Names [] := by
    intro services
    induction services with
    | nil => exact ⟨rfl, rfl⟩
    | cons service rest ih =>
      have hstart : (start service).Names [] := ⟨rfl, rfl⟩
      exact hstart.cons ih
  unfold statement
  split
  · exact ⟨rfl, rfl⟩
  · exact hall _

namespace Checkout

/-- The paths that bringing the source looks at. -/
def fetchPaths (job : Job) : List Bytes :=
  if isTarball job then [job.repository.slug, archiveName job.repository.slug]
  else [Path.join [job.repository.slug, bytes ".git"]]

/-- The path that updating the submodules looks at. -/
def submodulePaths (job : Job) : List Bytes :=
  if !job.config.git.submodules || isTarball job then [] else [bytes ".gitmodules"]

theorem names_fetch (job : Job) : (fetch job).Names (fetchPaths job) := by
  unfold fetch fetchPaths
  split <;> exact ⟨rfl, rfl⟩

theorem names_fetchRef (job : Job) : (fetchRef job).Names [] := by
  unfold fetchRef
  split
  · exact ⟨rfl, rfl⟩
  · split <;> exact ⟨rfl, rfl⟩

theorem names_checkout (job : Job) : (checkout job).Names [] := by
  unfold checkout
  split <;> exact ⟨rfl, rfl⟩

theorem names_submodules (job : Job) : (submodules job).Names (submodulePaths job) := by
  unfold submodules submodulePaths
  split <;> exact ⟨rfl, rfl⟩

/-- **The paths of a checkout**: the slug is always among them. -/
theorem names_statement (job : Job) : (statement job).Names
    (buildDir :: bytes "build" :: (fetchPaths job ++ job.repository.slug :: submodulePaths job)) := by
  have hnil : (sequence []).Names [] := ⟨rfl, rfl⟩
  have hbuild : (Statement.run (.makeDir buildDir) []).Names [buildDir] := ⟨rfl, rfl⟩
  have hinto : (Statement.run (.changeDir (bytes "build")) []).Names [bytes "build"] := ⟨rfl, rfl⟩
  have hask : (exporting (bytes "GIT_ASKPASS") (bytes "echo")).Names [] := ⟨rfl, rfl⟩
  have hslug : (Statement.run (.changeDir job.repository.slug) []).Names [job.repository.slug] :=
    ⟨rfl, rfl⟩
  have hend := (names_fetchRef job).cons ((names_checkout job).cons ((names_submodules job).cons hnil))
  have h := hbuild.cons (hinto.cons (hask.cons ((names_fetch job).cons (hslug.cons hend))))
  simpa [statement, block] using h

/-- **A checkout can be written exactly if the slug can.** -/
theorem text_statement (job : Job) :
    (statement job).paths.all isPathText = isPathText job.repository.slug := by
  have hbuild : isPathText buildDir = true := by decide
  have hinto : isPathText (bytes "build") = true := by decide
  have hsubmodules : (submodulePaths job).all isPathText = true := by
    unfold submodulePaths
    split
    · rfl
    · decide
  rw [(names_statement job).paths, List.all_cons, List.all_cons, List.all_append, List.all_cons,
    hbuild, hinto, hsubmodules]
  cases h : isPathText job.repository.slug with
  | false => simp
  | true =>
    -- what is made from the slug can be written too
    have hfetch : (fetchPaths job).all isPathText = true := by
      unfold fetchPaths
      split
      · simp [h, isPathText_archiveName h]
      · simp [isPathText_gitDir h]
    rw [hfetch]
    rfl

end Checkout

namespace Script

theorem names_fixes (job : Job) : (fixes job).Names [] := by
  refine Names.stage ?_
  cases job.fixResolvConf <;> cases job.fixEtcHosts <;> exact ⟨rfl, rfl⟩

theorem names_paranoidMode (job : Job) : (paranoidMode job).Names [] := by
  unfold paranoidMode
  split <;> exact ⟨rfl, rfl⟩

theorem names_commonStages (job : Job) :
    (commonStages job).Names (Checkout.statement job).paths := by
  have hnil : (sequence []).Names [] := ⟨rfl, rfl⟩
  have hexports : exports.Names [] := ⟨rfl, rfl⟩
  have hcheckout : (Statement.fold (bytes "git.checkout") (Checkout.statement job)).Names
      (Checkout.statement job).paths := by
    refine ⟨?_, rfl⟩
    rw [isComplete, (Checkout.names_statement job).complete]
    -- the name can stand on a marker line
    rfl
  have h := (names_fixes job).cons (hcheckout.cons ((Services.names_statement job).cons
    ((names_paranoidMode job).cons (hexports.cons hnil))))
  refine Names.stage ?_
  simpa using h

theorem names_languageStages {language : Language} (h : language ∈ Language.all) :
    (languageStages language).Names [] := by
  simp only [Language.all, List.mem_cons, List.not_mem_nil, or_false] at h
  rcases h with rfl | rfl <;> exact ⟨rfl, rfl⟩

/-- **The tree of a job is complete, and its paths are those of the checkout.** -/
theorem names_treeIn {language : Language} (h : language ∈ Language.all) (job : Job) :
    (treeIn language job).Names (Checkout.statement job).paths := by
  have hnil : (sequence []).Names [] := ⟨rfl, rfl⟩
  have hrow := (names_commonStages job).cons ((names_languageStages h).cons hnil)
  refine Names.stage ?_
  simpa using hrow

end Script

/-! ## Compiling -/

/-- The job names a language that there is, or none. -/
def Job.HasLanguage (job : Job) : Prop := job.config.language ∈ [[], bytes "generic", bytes "rust"]

/-- The slug of the repository is text without a zero byte. -/
def Job.HasTextSlug (job : Job) : Prop :=
  Utf8.valid job.repository.slug = true ∧ 0 ∉ job.repository.slug

namespace Script

theorem forJob_of_mem {name : Bytes} (h : name ∈ [[], bytes "generic", bytes "rust"]) :
    ∃ language ∈ Language.all, Language.forJob name = .ok language := by
  simp only [List.mem_cons, List.not_mem_nil, or_false] at h
  rcases h with rfl | rfl | rfl
  · exact ⟨.generic, List.mem_cons_self, rfl⟩
  · exact ⟨.generic, List.mem_cons_self, by rfl⟩
  · exact ⟨.rust, List.mem_cons_of_mem _ List.mem_cons_self, by rfl⟩

theorem forJob_of_not_mem {name : Bytes} (h : name ∉ [[], bytes "generic", bytes "rust"]) :
    Language.forJob name = .error ⟨name⟩ := by
  simp only [List.mem_cons, List.not_mem_nil, or_false, not_or] at h
  obtain ⟨hempty, hgeneric, hrust⟩ := h
  have hnone : Language.named? name = none := by
    rw [Language.named?, List.find?_eq_none]
    simp [Language.all, Language.generic, Language.rust, Ne.symm hgeneric, Ne.symm hrust]
  rw [Language.forJob, if_neg hempty, hnone]

theorem mem_all_of_forJob {name : Bytes} {language : Language} (h : Language.forJob name = .ok language) :
    language ∈ Language.all := by
  unfold Language.forJob at h
  split at h
  · cases h
    exact List.mem_cons_self
  · split at h
    · next found hfound =>
      cases h
      exact List.mem_of_find?_eq_some hfound
    · cases h

/-- **What was compiled** is the tree of the job in one of the languages, and its text in the frame. -/
theorem compile_ok {header footer : Bytes} {job : Job} {compiled : Compiled}
    (h : compile header footer job = .ok compiled) :
    ∃ language ∈ Language.all, ∃ body, (treeIn language job).render = .ok body ∧
      compiled = ⟨treeIn language job, language.name, header ++ body ++ [10] ++ footer⟩ := by
  unfold compile at h
  split at h
  · cases h
  · next language hlanguage =>
    dsimp only at h
    split at h
    · cases h
    · next body hbody =>
      cases h
      exact ⟨language, mem_all_of_forJob hlanguage, body, hbody, rfl⟩

/-- How compiling a job ends, as its language and its slug tell. -/
inductive Ends (header footer : Bytes) (job : Job) : Prop where
  | unknown (hlanguage : ¬ job.HasLanguage)
      (h : compile header footer job = .error (.language ⟨job.config.language⟩))
  | refused (hlanguage : job.HasLanguage) (hslug : ¬ job.HasTextSlug) (cause : PathFault)
      (h : compile header footer job = .error (.render job.repository.slug (.path cause)))
  | compiled (hlanguage : job.HasLanguage) (hslug : job.HasTextSlug) (result : Compiled)
      (h : compile header footer job = .ok result)

/-- **The three ways in which compiling ends.** -/
theorem ends_compile (header footer : Bytes) (job : Job) : Ends header footer job := by
  by_cases hknown : job.HasLanguage
  · obtain ⟨language, hall, hlanguage⟩ := forJob_of_mem hknown
    have htree := names_treeIn hall job
    have hpaths : (treeIn language job).paths.all isPathText = isPathText job.repository.slug := by
      rw [htree.paths, Checkout.text_statement]
    -- the tree is complete, so its text is there unless a path is in the way
    cases Shell.hingesOn_render _ htree.complete with
    | written text htext hrender =>
      refine .compiled hknown (isPathText_iff.1 (hpaths.symm.trans htext))
        ⟨treeIn language job, language.name, header ++ text ++ [10] ++ footer⟩ ?_
      simp only [compile, hlanguage, hrender]
    | refused cause htext hrender =>
      have hslug : ¬ job.HasTextSlug := by
        intro h
        rw [hpaths, isPathText_iff.2 h] at htext
        cases htext
      refine .refused hknown hslug cause ?_
      simp only [compile, hlanguage, hrender]
  · refine .unknown hknown ?_
    simp only [compile, forJob_of_not_mem hknown]

end Script

/-! ## Keeping what was compiled -/

namespace Store

/-- Only the disk can be in the way of a script and its record. -/
theorem keep_result (store : Store) (text : Bytes) (record : Record) :
    (store.keep text record).result = .ok record ∨
      ∃ cause, (store.keep text record).result = .error (.file cause) := by
  unfold keep
  dsimp only
  split
  · exact Or.inr ⟨_, rfl⟩
  split
  · exact Or.inr ⟨_, rfl⟩
  split
  · exact Or.inr ⟨_, rfl⟩
  · exact Or.inl rfl

variable {header footer : Bytes} {job : Job}

theorem save_of_error {fault : Script.Fault} (h : Script.compile header footer job = .error fault)
    (store : Store) (id : Bytes) : store.save header footer job id = ⟨store, .error (.script fault)⟩ := by
  simp only [save, h]

/-- The record of a compiled job is always complete, so the job is kept. -/
theorem save_of_ok {compiled : Script.Compiled}
    (h : Script.compile header footer job = .ok compiled) (store : Store) (id : Bytes) :
    store.save header footer job id =
      store.keep compiled.text
        { id, slug := job.repository.slug, commit := job.revision.commit,
          language := compiled.language, fingerprint := compiled.tree.fingerprint,
          jobHash := job.hash } := by
  simp only [save, h, recordFor, Statement.fingerprint_datum]
  rfl

end Store

/-- **Only the language and the slug decide whether a job compiles.** Whatever else a job says, its tree
is complete in every language. It has no script because of its language exactly if there is no such
language. If there is, the job has no script because of a path exactly if the slug is not text without a
zero byte; otherwise the script is there, and so are the fingerprint of its tree and the hash of the
job. So there are only these two cases in which a job cannot be kept in a store for another reason than
the disk, and in both the store is left as it was. -/
theorem compiles_exactly (header footer : Bytes) (job : Job) :
    (∀ language ∈ Language.all, (Script.treeIn language job).isComplete = true) ∧
    ((∃ fault, Script.compile header footer job = .error (.language fault)) ↔ ¬ job.HasLanguage) ∧
    (job.HasLanguage →
      ((∃ cause, Script.compile header footer job =
          .error (.render job.repository.slug (.path cause))) ↔ ¬ job.HasTextSlug) ∧
      ((∃ compiled, Script.compile header footer job = .ok compiled ∧
          compiled.tree.datum.fingerprint = .ok compiled.tree.fingerprint) ↔ job.HasTextSlug)) ∧
    ∀ (store : Store) (id : Bytes),
      ((∃ fault, (store.save header footer job id).result = .error fault ∧
          ∀ cause, fault ≠ .file cause) ↔ ¬ job.HasLanguage ∨ ¬ job.HasTextSlug) ∧
      (¬ job.HasLanguage ∨ ¬ job.HasTextSlug → (store.save header footer job id).store = store) ∧
      (job.HasLanguage → job.HasTextSlug → ∃ compiled,
        Script.compile header footer job = .ok compiled ∧
        store.save header footer job id =
          store.keep compiled.text
            { id, slug := job.repository.slug, commit := job.revision.commit,
              language := compiled.language, fingerprint := compiled.tree.fingerprint,
              jobHash := job.hash }) := by
  refine ⟨fun language h => (Script.names_treeIn h job).complete, ?_⟩
  cases Script.ends_compile header footer job with
  | unknown hlanguage h =>
    refine ⟨by simp [h, hlanguage], fun hknown => absurd hknown hlanguage, fun store id => ?_⟩
    rw [Store.save_of_error h]
    simp [hlanguage]
  | refused hlanguage hslug cause h =>
    refine ⟨by simp [h, hlanguage], fun _ => by simp [h, hslug], fun store id => ?_⟩
    rw [Store.save_of_error h]
    simp [hslug]
  | compiled hlanguage hslug result h =>
    refine ⟨by simp [h, hlanguage], fun _ => ?_, fun store id => ?_⟩
    · simp [h, hslug, Statement.fingerprint_datum]
    · have hsave := Store.save_of_ok h store id
      refine ⟨?_, fun hbad => absurd hbad (by simp [hlanguage, hslug]), fun _ _ => ⟨result, h, hsave⟩⟩
      rw [hsave]
      -- a compiled job is kept, or the disk is in the way
      rcases Store.keep_result store result.text _ with hkeep | ⟨cause, hkeep⟩
      · rw [hkeep]
        simp [hlanguage, hslug]
      · rw [hkeep]
        simp [hlanguage, hslug]

/-- A job whose slug has a segment that is no text; cleaning a path that begins with it drops it. -/
def strayJob : Job :=
  { Job.sample with repository := ⟨255 :: bytes "/../x", []⟩ }

/-- A job that fetches an archive. -/
def archiveJob : Job :=
  { Job.sample with
    config := ⟨bytes "rust", { GitConfig.default with strategy := GitConfig.tarball }, [[255]]⟩ }

/-- The directory of the stray job can be written, and the job cannot. A service with any name can be
started. -/
theorem compiles_exactly_sample :
    isPathText (Path.join [strayJob.repository.slug, bytes ".git"]) = true ∧
    (∃ cause, Script.compile [] [] strayJob =
      .error (.render strayJob.repository.slug (.path cause))) ∧
    (Store.save ⟨⟨[], []⟩, Path.here⟩ [] [] strayJob (bytes "ID")).store = ⟨⟨[], []⟩, Path.here⟩ ∧
    (Script.treeIn .rust archiveJob).isComplete = true ∧
    (∃ compiled, Script.compile [] [] archiveJob = .ok compiled ∧
      compiled.tree.datum.fingerprint = .ok compiled.tree.fingerprint) ∧
    ∃ compiled, Script.compile [] [] archiveJob = .ok compiled ∧
      Store.save ⟨⟨[], []⟩, Path.here⟩ [] [] archiveJob (bytes "ID") =
        Store.keep ⟨⟨[], []⟩, Path.here⟩ compiled.text
          { id := bytes "ID", slug := archiveJob.repository.slug,
            commit := archiveJob.revision.commit, language := compiled.language,
            fingerprint := compiled.tree.fingerprint, jobHash := archiveJob.hash } := by
  have hstray : strayJob.HasLanguage := List.mem_cons_self
  have hslug : ¬ strayJob.HasTextSlug := by
    rw [Job.HasTextSlug, ← isPathText_iff]
    decide +kernel
  have harchive : archiveJob.HasLanguage := by
    rw [Job.HasLanguage]
    decide
  have htext : archiveJob.HasTextSlug := isPathText_iff.1 (by decide +kernel)
  obtain ⟨-, -, hfails, hstore⟩ := compiles_exactly [] [] strayJob
  obtain ⟨htree, -, hends, hkept⟩ := compiles_exactly [] [] archiveJob
  exact ⟨by decide +kernel, (hfails hstray).1.2 hslug, (hstore _ _).2.1 (Or.inr hslug),
    htree .rust (List.mem_cons_of_mem _ List.mem_cons_self), (hends harchive).2.2 htext,
    (hkept _ _).2.2 harchive htext⟩

end BuildScript
