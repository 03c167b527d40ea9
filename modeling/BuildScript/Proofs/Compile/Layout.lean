import BuildScript.Proofs.Compile.Success
import BuildScript.Proofs.Shell.Lines

/-!
# The layout of a script

A stage of a job may have nothing to do. It is then left out of the tree, and so no part of a tree is empty:
whatever the job says, there is something on every line of its script.

* `Statement.hasNoGaps_stage`, `Statement.isNoop_stage`: a stage has no gaps, and is left out only if all in
  it is.
* `Script.hasNoGaps_treeIn`: **the tree of a job has no gaps.**
* `script_has_no_blank_line`: the text of a job has something on each of its lines.
-/

namespace BuildScript

open Shell (hasNoGap Solid)

/-! ## Stages -/

namespace Statement

theorem hasNoGaps_noop : noop.hasNoGaps = true := rfl

theorem hasNoGaps_run (command : Command) (options : List CommandOption) :
    (run command options).hasNoGaps = true := rfl

theorem everywhereEach_eq_all (test : Statement → Bool) (statements : List Statement) :
    everywhereEach test statements = statements.all (everywhere test) := by
  induction statements with
  | nil => rfl
  | cons s rest ih => rw [everywhereEach, ih, List.all_cons]

/-- Statements in a row of which one does something have no gaps if none of them has. -/
theorem hasNoGaps_block {statements : List Statement} (hsome : ∃ s ∈ statements, s.isNoop = false)
    (hall : ∀ s ∈ statements, s.hasNoGaps = true) : (block statements).hasNoGaps = true := by
  have hany : (statements.any fun s => !s.isNoop) = true := by
    obtain ⟨s, hs, hdoes⟩ := hsome
    exact List.any_eq_true.2 ⟨s, hs, by rw [hdoes]; rfl⟩
  rw [block, hasNoGaps, everywhere, hasNoGap, hany, Bool.true_and, everywhereEach_eq_all]
  exact List.all_eq_true.2 hall

/-- A stage has no gaps if none of its statements has. -/
theorem hasNoGaps_stage {statements : List Statement} (hall : ∀ s ∈ statements, s.hasNoGaps = true) :
    (Script.stage statements).hasNoGaps = true := by
  unfold Script.stage
  dsimp only
  split
  · rfl
  · next hkept =>
    rw [List.isEmpty_iff] at hkept
    obtain ⟨s, rest, hcons⟩ := List.exists_cons_of_ne_nil hkept
    have hkeeps : ∀ s ∈ statements.filter (fun s => !s.isNoop), s.isNoop = false := by
      intro s hs
      simpa using (List.mem_filter.1 hs).2
    have hs : s ∈ statements.filter fun s => !s.isNoop := by
      rw [hcons]
      exact List.mem_cons_self
    exact hasNoGaps_block ⟨s, hs, hkeeps s hs⟩ fun s hs => hall s (List.mem_filter.1 hs).1

/-- A stage with something to do is not left out. -/
theorem isNoop_stage {statements : List Statement} (hsome : ∃ s ∈ statements, s.isNoop = false) :
    (Script.stage statements).isNoop = false := by
  obtain ⟨s, hs, hdoes⟩ := hsome
  have hkept : s ∈ statements.filter fun s => !s.isNoop :=
    List.mem_filter.2 ⟨hs, by rw [hdoes]; rfl⟩
  unfold Script.stage
  dsimp only
  split
  · next hempty =>
    rw [List.isEmpty_iff.1 hempty] at hkept
    cases hkept
  · rfl

end Statement

open Statement

/-! ## The stages of a job -/

theorem Services.hasNoGaps_statement (job : Job) : (statement job).hasNoGaps = true := by
  unfold statement
  split
  · rfl
  · next hservices =>
    have hne : job.config.services ≠ [] := fun hnil => hservices (List.isEmpty_iff.2 hnil)
    obtain ⟨service, rest, hcons⟩ := List.exists_cons_of_ne_nil hne
    apply hasNoGaps_block
    · rw [hcons]
      exact ⟨start service, List.mem_cons_self, rfl⟩
    · intro s hs
      obtain ⟨service, -, rfl⟩ := List.mem_map.1 hs
      rfl

namespace Checkout

theorem hasNoGaps_fetch (job : Job) : (fetch job).hasNoGaps = true := by
  unfold fetch
  split <;> rfl

theorem hasNoGaps_fetchRef (job : Job) : (fetchRef job).hasNoGaps = true := by
  unfold fetchRef
  split
  · rfl
  · split <;> rfl

theorem hasNoGaps_checkout (job : Job) : (checkout job).hasNoGaps = true := by
  unfold checkout
  split <;> rfl

theorem hasNoGaps_submodules (job : Job) : (submodules job).hasNoGaps = true := by
  unfold submodules
  split <;> rfl

theorem hasNoGaps_statement (job : Job) : (statement job).hasNoGaps = true := by
  have hfetch := hasNoGaps_fetch job
  have href := hasNoGaps_fetchRef job
  have hcheckout := hasNoGaps_checkout job
  have hsubmodules := hasNoGaps_submodules job
  apply hasNoGaps_block
  · exact ⟨_, List.mem_cons_self, rfl⟩
  · simp only [List.forall_mem_cons, exporting, hasNoGaps_run, hfetch, href, hcheckout, hsubmodules,
      List.not_mem_nil, false_implies, implies_true, and_self]

end Checkout

namespace Script

theorem hasNoGaps_fixes (job : Job) : (fixes job).hasNoGaps = true := by
  have hfix : ∀ (wanted : Bool) (fix : Bytes),
      (if wanted then Statement.run (.raw fix) [] else .noop).hasNoGaps = true := by
    intro wanted fix
    cases wanted with
    | true => exact hasNoGaps_run _ _
    | false => exact hasNoGaps_noop
  apply hasNoGaps_stage
  simp only [List.forall_mem_cons, hfix, List.not_mem_nil, false_implies, implies_true, and_self]

theorem hasNoGaps_paranoidMode (job : Job) : (paranoidMode job).hasNoGaps = true := by
  unfold paranoidMode
  split <;> rfl

theorem hasNoGaps_commonStages (job : Job) : (commonStages job).hasNoGaps = true := by
  have hfold : (Statement.fold (bytes "git.checkout") (Checkout.statement job)).hasNoGaps = true :=
    Checkout.hasNoGaps_statement job
  have hfixes := hasNoGaps_fixes job
  have hservices := Services.hasNoGaps_statement job
  have hparanoid := hasNoGaps_paranoidMode job
  have hexports : exports.hasNoGaps = true := rfl
  apply hasNoGaps_stage
  simp only [List.forall_mem_cons, hfold, hfixes, hservices, hparanoid, hexports, List.not_mem_nil,
    false_implies, implies_true, and_self]

theorem hasNoGaps_languageStages {language : Language} (h : language ∈ Language.all) :
    (languageStages language).hasNoGaps = true := by
  simp only [Language.all, List.mem_cons, List.not_mem_nil, or_false] at h
  rcases h with rfl | rfl <;> rfl

/-- **The tree of a job has no gaps.** -/
theorem hasNoGaps_treeIn {language : Language} (h : language ∈ Language.all) (job : Job) :
    (treeIn language job).hasNoGaps = true := by
  have hcommon := hasNoGaps_commonStages job
  have hlanguage := hasNoGaps_languageStages h
  apply hasNoGaps_stage
  simp only [List.forall_mem_cons, hcommon, hlanguage, List.not_mem_nil, false_implies, implies_true,
    and_self]

/-- The tree of a job does something: the variables are always exported. -/
theorem isNoop_treeIn (language : Language) (job : Job) : (treeIn language job).isNoop = false := by
  have hcommon : (commonStages job).isNoop = false := by
    apply isNoop_stage
    exact ⟨exports, by simp, rfl⟩
  apply isNoop_stage
  exact ⟨commonStages job, List.mem_cons_self, hcommon⟩

end Script

/-- **No line of a script is blank.** The text of a job that compiles stands between header and footer. It
is not empty, does not begin or end with a line feed, and has something that is no white space on each of
its lines, whatever the job says. -/
theorem script_has_no_blank_line {header footer : Bytes} {job : Job} {compiled : Script.Compiled}
    (h : Script.compile header footer job = .ok compiled) :
    ∃ body, compiled.tree.render = .ok body ∧ compiled.text = header ++ body ++ [10] ++ footer ∧
      body ≠ [] ∧ body.head? ≠ some 10 ∧ body.getLast? ≠ some 10 ∧
      ∀ line ∈ Bytes.lines body, ∃ b ∈ line, Shell.isBlank b = false := by
  obtain ⟨language, hall, body, hbody, rfl⟩ := Script.compile_ok h
  have hsolid : Solid body :=
    Shell.solid_render _ (Script.isNoop_treeIn language job) (Script.hasNoGaps_treeIn hall job) hbody
  exact ⟨body, hbody, rfl, hsolid.ne_nil, hsolid.head?_ne, hsolid.getLast?_ne, hsolid⟩

/-- A job with line feeds in all its texts. -/
def brokenLinesJob : Job :=
  { Job.sample with
    revision := ⟨bytes "\n\n", bytes "\n", some (bytes "\n \n"), false⟩
    repository := ⟨bytes "\n\na\n", bytes "\n"⟩
    config := ⟨bytes "rust", GitConfig.default, [[], bytes "\n\n"]⟩ }

theorem script_has_no_blank_line_broken :
    ∃ compiled, Script.compile [] [] brokenLinesJob = .ok compiled ∧
      ∃ body, compiled.tree.render = .ok body ∧ body ≠ [] ∧
        ∀ line ∈ Bytes.lines body, ∃ b ∈ line, Shell.isBlank b = false := by
  have hlanguage : brokenLinesJob.HasLanguage := by
    rw [Job.HasLanguage]
    decide
  have hslug : brokenLinesJob.HasTextSlug := isPathText_iff.1 (by decide +kernel)
  cases Script.ends_compile [] [] brokenLinesJob with
  | unknown hunknown _ => exact absurd hlanguage hunknown
  | refused _ hrefused _ _ => exact absurd hslug hrefused
  | compiled _ _ compiled h =>
    obtain ⟨body, hbody, -, hne, -, -, hlines⟩ := script_has_no_blank_line h
    exact ⟨compiled, h, body, hbody, hne, hlines⟩

end BuildScript
