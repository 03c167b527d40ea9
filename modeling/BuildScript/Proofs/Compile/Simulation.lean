import BuildScript.Proofs.Compile.Checkout

/-!
# Scripts of jobs on a fresh machine

The script of a job can be run on a machine that is only a value, and nothing in it can fail there. A
fresh machine has no repository, so the script always clones and never updates.

* `Leads.stage`, `Logs.stage`: a stage runs as its statements do.
* `Script.commands`: the commands of a job, told without its tree.
* `leads_checkout`: **the checkout of a job on a fresh machine**, whatever the slug is.
* `compiled_script_runs`: what the script of a job does.
-/

namespace BuildScript

open BuildScript.Path (segments IsClean)

/-! ## Stages -/

/-- A stage runs as its statements do one after the other. -/
theorem Machine.Leads.stage {m m₁ : Machine} {statements : List Statement}
    (h : m.Leads (.sequence statements) m₁) : m.Leads (Script.stage statements) m₁ := by
  have hkept : m.Leads (.sequence (statements.filter fun s => !s.isNoop)) m₁ := by
    -- a noop leads nowhere, so it can be left out of the row
    obtain ⟨actions, h⟩ := h
    induction statements generalizing m actions with
    | nil => exact ⟨actions, h⟩
    | cons s rest ih =>
      cases h with
      | cons head tail =>
        cases hs : s.isNoop with
        | false =>
          rw [List.filter_cons_of_pos (by rw [hs]; rfl)]
          exact Machine.Leads.cons ⟨_, head⟩ (ih _ tail)
        | true =>
          rw [List.filter_cons_of_neg (by rw [hs]; exact Bool.false_ne_true)]
          rcases Statement.eq_of_isNoop hs with rfl | rfl <;> (cases head; exact ih _ tail)
  unfold Script.stage
  dsimp only
  split
  · next hempty =>
    rw [List.isEmpty_iff.1 hempty] at hkept
    obtain ⟨actions, hkept⟩ := hkept
    cases hkept
    exact Machine.leads_noop m
  · exact hkept

theorem Statement.Logs.stage {statements : List Statement} {entries : List Executed}
    (h : (sequence statements).Logs entries) : (Script.stage statements).Logs entries :=
  fun m => (h m).stage

/-! ## The commands of a job -/

namespace Script

/-- The fixes of a machine that a job asks for. -/
def fixCommands (job : Job) : List Executed :=
  (if job.fixResolvConf then [⟨resolvFix, []⟩] else [])
    ++ if job.fixEtcHosts then [⟨hostsFix, []⟩] else []

/-- One command for each service. -/
def serviceCommands (job : Job) : List Executed :=
  job.config.services.map fun service =>
    ⟨bytes "sudo service " ++ Services.installedName service ++ bytes " start", [.echo]⟩

/-- The commands of the paranoid mode. -/
def paranoidCommands (job : Job) : List Executed :=
  if job.paranoid then
    [⟨bytes "echo", []⟩, ⟨bytes "echo " ++ paranoidNotice, []⟩, ⟨paranoidCommand, []⟩]
  else []

/-- The commands of a language. -/
def languageCommands (name : Bytes) : List Executed :=
  if name = bytes "rust" then
    [⟨bytes "rustc --version", [.echo]⟩, ⟨bytes "cargo --version", [.echo]⟩,
      ⟨bytes "cargo build --verbose", [.echo, .assert]⟩, ⟨bytes "cargo test --verbose", [.echo]⟩]
  else []

/-- All commands of a job, in order. -/
def commands (job : Job) : List Executed :=
  fixCommands job ++ Checkout.commands job ++ serviceCommands job ++ paranoidCommands job ++
    languageCommands job.config.language

end Script

open Statement

namespace Script

theorem logs_fixes (job : Job) : (fixes job).Logs (fixCommands job) := by
  have hresolv : (if job.fixResolvConf then Statement.run (.raw resolvFix) [] else .noop).Logs
      (if job.fixResolvConf then [⟨resolvFix, []⟩] else []) := by
    split
    · exact logs_raw _ _
    · exact logs_noop
  have hhosts : (if job.fixEtcHosts then Statement.run (.raw hostsFix) [] else .noop).Logs
      (if job.fixEtcHosts then [⟨hostsFix, []⟩] else []) := by
    split
    · exact logs_raw _ _
    · exact logs_noop
  have h := hresolv.cons (hhosts.cons logs_nil)
  rw [List.append_nil] at h
  exact h.stage

theorem logs_services (job : Job) : (Services.statement job).Logs (serviceCommands job) := by
  have hall : ∀ services : List Bytes, (sequence (services.map Services.start)).Logs
      (services.map fun service =>
        ⟨bytes "sudo service " ++ Services.installedName service ++ bytes " start", [.echo]⟩) := by
    intro services
    induction services with
    | nil => exact logs_nil
    | cons service rest ih => exact (logs_raw _ _).cons ih
  unfold Services.statement serviceCommands
  split
  · next hnone =>
    rw [List.isEmpty_iff.1 hnone]
    exact logs_noop
  · exact hall _

theorem logs_paranoidMode (job : Job) : (paranoidMode job).Logs (paranoidCommands job) := by
  unfold paranoidMode paranoidCommands
  split
  · have hnewline : (Statement.run .newline []).Logs [⟨bytes "echo", []⟩] :=
      fun _ => Machine.leads_action rfl
    have hnotice : (Statement.run (.echo paranoidNotice) []).Logs [⟨bytes "echo " ++ paranoidNotice, []⟩] :=
      fun _ => Machine.leads_action rfl
    exact hnewline.cons (hnotice.cons ((logs_raw _ _).cons logs_nil))
  · exact logs_noop

theorem logs_languageStages {language : Language} (h : language ∈ Language.all) :
    (languageStages language).Logs (languageCommands language.name) := by
  simp only [Language.all, List.mem_cons, List.not_mem_nil, or_false] at h
  rcases h with rfl | rfl
  · have hnone : languageCommands Language.generic.name = [] := by decide
    rw [hnone]
    exact logs_noop
  · have hannounce : Language.rust.announce.Logs _ :=
      (logs_raw _ _).cons ((logs_raw _ _).cons logs_nil)
    have hinstall : (Statement.fold (bytes "install") Language.rust.install).Logs _ :=
      (logs_raw _ _).fold _
    have hscript : Language.rust.script.Logs _ := logs_raw _ _
    have h := logs_noop.cons (hannounce.cons (hinstall.cons (hscript.cons logs_nil)))
    exact h.stage

end Script

/-! ## The checkout on a fresh machine -/

namespace Checkout

theorem fresh_kinds (place : List Bytes) :
    Machine.fresh.root.kinds place =
      if place <+: [bytes "home", bytes "travis"] then some .dir else none := by
  have hmade : Machine.fresh.root = (Folder.makeDirs [bytes "home", bytes "travis"] []).1 := by
    have hway : segments (Machine.bare Machine.home).cwd = [bytes "home", bytes "travis"] := by decide
    rw [← hway]
    rfl
  rw [hmade, Folder.kinds_makeDirs (Folder.makeDirs_nil_stop _), Kinds.made]
  by_cases hnil : place = []
  · rw [hnil, if_pos List.nil_prefix, if_pos List.nil_prefix]
  · rw [Folder.kinds_empty hnil]

theorem fresh_ne_file (place : List Bytes) : Machine.fresh.root.kinds place ≠ some .file := by
  rw [fresh_kinds]
  intro hfile
  split at hfile <;> cases hfile

/-- A fresh machine has no clone. -/
theorem fresh_ne_dir {name : Bytes} (hname : name ∉ [bytes "home", bytes "travis"]) (place : List Bytes) :
    Machine.fresh.root.kinds (place ++ [name]) ≠ some .dir := by
  have hnot : ¬ place ++ [name] <+: [bytes "home", bytes "travis"] :=
    fun hway => hname (hway.subset (List.mem_append_right _ List.mem_cons_self))
  rw [fresh_kinds, if_neg hnot]
  exact (Option.some_ne_none _).symm

variable {job : Job}

/-- **The checkout of a job on a fresh machine.** -/
theorem leads_checkout (hslug : isPathText job.repository.slug = true) (log : List Executed) :
    ∃ root, { Machine.fresh with log }.Leads (statement job)
      ⟨root, workDir job.repository.slug, [(bytes "GIT_ASKPASS", bytes "echo")],
        log ++ commands job⟩ := by
  have hhome : Machine.fresh.cwd = Machine.home := by decide
  have hreachable : Machine.fresh.Reachable := ⟨.fresh, [], rfl⟩
  have hordered := hreachable.sound.ordered
  have hfree : ∀ part, part <+: buildWay → Machine.fresh.root.kinds part ≠ some .file :=
    fun part _ => fresh_ne_file part
  have hlog : (checkedOut job { Machine.fresh with log }).log = log ++ commands job := by
    by_cases htarball : job.config.git.strategy = GitConfig.tarball
    · rw [log_unpacked htarball, commands, refCommands_of_tarball htarball,
        commitCommands_of_tarball htarball, List.append_nil, List.append_nil]
    · rw [log_cloned (m := { Machine.fresh with log }) hordered hfree htarball,
        if_neg (fresh_ne_dir (by decide) _), if_neg fun h => fresh_ne_file _ h.2, List.append_nil,
        commands, List.append_assoc, List.append_assoc, List.append_assoc]
  have hleads := (leads_statement_iff (m := { Machine.fresh with log }) hhome hslug).2
    ⟨hfree, fun _ => (free_entered_iff hordered hfree _).2 fun part _ => fresh_ne_file part, rfl⟩
  have henv : (checkedOut job { Machine.fresh with log }).env = [(bytes "GIT_ASKPASS", bytes "echo")] := by
    rw [env_checkedOut]
    rfl
  refine ⟨(checkedOut job { Machine.fresh with log }).root, ?_⟩
  rw [← hlog, ← henv]
  exact hleads

end Checkout

/-! ## The whole script -/

namespace Script

variable {job : Job}

/-- The variables that a script exports, in the order of their names. -/
def exported : List (Bytes × Bytes) :=
  [(bytes "CI", bytes "true"), (bytes "CONTINUOUS_INTEGRATION", bytes "true"),
    (bytes "GIT_ASKPASS", bytes "echo"), (bytes "HAS_JOSH_K_SEAL_OF_APPROVAL", bytes "true"),
    (bytes "TRAVIS", bytes "true")]

theorem leads_exports {root : Folder} {cwd : Bytes} {log : List Executed} :
    Machine.Leads ⟨root, cwd, [(bytes "GIT_ASKPASS", bytes "echo")], log⟩ exports
      ⟨root, cwd, exported, log⟩ := by
  have hsorted : Machine.setVariable (bytes "HAS_JOSH_K_SEAL_OF_APPROVAL") (bytes "true")
      (Machine.setVariable (bytes "CONTINUOUS_INTEGRATION") (bytes "true")
        (Machine.setVariable (bytes "CI") (bytes "true")
          (Machine.setVariable (bytes "TRAVIS") (bytes "true")
            [(bytes "GIT_ASKPASS", bytes "echo")]))) = exported := by decide +kernel
  rw [← hsorted]
  exact (Machine.leads_setEnv _ _ _).cons ((Machine.leads_setEnv _ _ _).cons
    ((Machine.leads_setEnv _ _ _).cons ((Machine.leads_setEnv _ _ _).cons (Machine.leads_nil _))))

/-- **The script of a job on a fresh machine.** -/
theorem leads_treeIn {language : Language} (h : language ∈ Language.all)
    (hslug : isPathText job.repository.slug = true) :
    ∃ root, Machine.fresh.Leads (treeIn language job)
      ⟨root, Checkout.workDir job.repository.slug, exported,
        fixCommands job ++ Checkout.commands job ++ serviceCommands job ++ paranoidCommands job
          ++ languageCommands language.name⟩ := by
  obtain ⟨root, hcheckout⟩ := Checkout.leads_checkout hslug (fixCommands job)
  have hcommon : Machine.fresh.Leads (commonStages job)
      ⟨root, Checkout.workDir job.repository.slug, exported,
        fixCommands job ++ Checkout.commands job ++ serviceCommands job ++ paranoidCommands job⟩ := by
    refine Machine.Leads.stage ?_
    exact (logs_fixes job Machine.fresh).cons ((hcheckout.fold _).cons ((logs_services job _).cons
      ((logs_paranoidMode job _).cons (leads_exports.cons (Machine.leads_nil _)))))
  refine ⟨root, Machine.Leads.stage ?_⟩
  exact hcommon.cons ((logs_languageStages h _).cons (Machine.leads_nil _))

theorem languageCommands_forJob {name : Bytes} {language : Language}
    (h : Language.forJob name = .ok language) :
    languageCommands language.name = languageCommands name := by
  unfold Language.forJob at h
  split at h
  · next hnone =>
    cases h
    rw [hnone]
    decide
  · split at h
    · next found hfound =>
      cases h
      have hname := List.find?_some hfound
      rw [of_decide_eq_true hname]
    · cases h

/-- Whether a command works on a repository that is there already: it updates the submodules, fetches or
resets. -/
def updates (command : Bytes) : Bool :=
  Bytes.startsWith (bytes "git submodule") command || Bytes.startsWith (bytes "git -C ") command

/-- A command that begins otherwise. -/
theorem updates_append {head : Bytes} (h : updates head = false)
    (hsubmodule : Bytes.startsWith head (bytes "git submodule") = false)
    (hdirectory : Bytes.startsWith head (bytes "git -C ") = false) (rest : Bytes) :
    updates (head ++ rest) = false := by
  have happend : ∀ pre, Bytes.startsWith pre head = false → Bytes.startsWith head pre = false →
      Bytes.startsWith pre (head ++ rest) = false := by
    intro pre hpre hhead
    simp only [Bytes.startsWith, ← Bool.not_eq_true, List.isPrefixOf_iff_prefix] at hpre hhead ⊢
    intro hboth
    rcases List.prefix_or_prefix_of_prefix hboth (List.prefix_append head rest) with h | h
    · exact hpre h
    · exact hhead h
  rw [updates, Bool.or_eq_false_iff] at h
  rw [updates, happend _ h.1 hsubmodule, happend _ h.2 hdirectory]
  rfl

theorem fetchCommands_update_nothing (job : Job) :
    ∀ executed ∈ Checkout.fetchCommands job, updates executed.command = false := by
  have hcurl := updates_append (by decide : updates (bytes "curl -o ") = false) (by decide) (by decide)
  have htar := updates_append (by decide : updates (bytes "tar xfz ") = false) (by decide) (by decide)
  have hclone := updates_append (by decide : updates (bytes "git clone ") = false) (by decide) (by decide)
  intro executed hmem
  unfold Checkout.fetchCommands at hmem
  split at hmem
  · simp only [List.append_assoc, List.mem_cons, List.not_mem_nil, or_false] at hmem
    rcases hmem with rfl | rfl
    · exact hcurl _
    · exact htar _
  · simp only [List.append_assoc, List.mem_cons, List.not_mem_nil, or_false] at hmem
    rw [hmem]
    exact hclone _

theorem refCommands_update_nothing (job : Job) :
    ∀ executed ∈ Checkout.refCommands job, updates executed.command = false := by
  have href := updates_append (by decide : updates (bytes "git fetch origin +") = false) (by decide)
    (by decide)
  unfold Checkout.refCommands
  cases job.revision.ref? with
  | none => exact nofun
  | some ref =>
    dsimp only
    split
    · exact nofun
    · simp only [List.append_assoc, List.forall_mem_singleton]
      exact href _

theorem commitCommands_update_nothing (job : Job) :
    ∀ executed ∈ Checkout.commitCommands job, updates executed.command = false := by
  have hcommit := updates_append (by decide : updates (bytes "git checkout -qf ") = false) (by decide)
    (by decide)
  unfold Checkout.commitCommands
  split
  · exact nofun
  · split
    · exact List.forall_mem_singleton.2 (by decide)
    · exact List.forall_mem_singleton.2 (hcommit _)

theorem fixed_update_nothing (asked : Prop) [Decidable asked] (entries : List Executed)
    (h : ∀ executed ∈ entries, updates executed.command = false) :
    ∀ executed ∈ if asked then entries else [], updates executed.command = false := by
  split
  · exact h
  · exact List.forall_mem_nil _

/-- **No command of a job works on a repository that was there before.** -/
theorem commands_update_nothing (job : Job) :
    ∀ executed ∈ commands job, updates executed.command = false := by
  have hservice := updates_append (by decide : updates (bytes "sudo service ") = false) (by decide)
    (by decide)
  have hecho := updates_append (by decide : updates (bytes "echo ") = false) (by decide) (by decide)
  have hcommand : updates paranoidCommand = false := by
    rw [paranoidCommand, Bytes.bytes_append]
    decide +kernel
  have hresolvFix : updates resolvFix = false := by
    rw [resolvFix, Bytes.bytes_append]
    decide +kernel
  have hhostsFix : updates hostsFix = false := by decide +kernel
  have hrust : ([bytes "rustc --version", bytes "cargo --version", bytes "cargo build --verbose",
      bytes "cargo test --verbose"].all fun text => !updates text) = true := by decide +kernel
  simp only [List.all_cons, List.all_nil, Bool.and_true, Bool.and_eq_true, Bool.not_eq_true'] at hrust
  have hparanoid : ∀ executed ∈ paranoidCommands job, updates executed.command = false := by
    refine fixed_update_nothing _ _ ?_
    simp only [List.forall_mem_cons, List.not_mem_nil, false_implies, implies_true, and_true]
    exact ⟨by decide, hecho _, hcommand⟩
  have hresolv := fixed_update_nothing (job.fixResolvConf = true) [⟨resolvFix, []⟩]
    (by simpa using hresolvFix)
  have hhosts := fixed_update_nothing (job.fixEtcHosts = true) [⟨hostsFix, []⟩] (by simpa using hhostsFix)
  have hlanguage : ∀ executed ∈ languageCommands job.config.language,
      updates executed.command = false := by
    refine fixed_update_nothing _ _ ?_
    simpa only [List.forall_mem_cons, List.not_mem_nil, false_implies, implies_true, and_true] using hrust
  have hfixes := List.forall_mem_append.2 ⟨hresolv, hhosts⟩
  have hfetch := And.intro (fetchCommands_update_nothing job) (refCommands_update_nothing job)
  simp only [commands, Checkout.commands, List.forall_mem_append]
  refine ⟨⟨⟨⟨hfixes, hfetch, commitCommands_update_nothing job⟩, ?_⟩, hparanoid⟩, hlanguage⟩
  intro executed hmem
  obtain ⟨service, -, rfl⟩ := List.mem_map.1 hmem
  rw [List.append_assoc]
  exact hservice _

end Script

/-- **Every script that compiles can be run.** If there is a script for a job, running it on a fresh
machine does not fail. It ends in the directory of the slug, with five variables exported. The commands
that were given to a shell are those of the job, and none of them works on a repository that was there
before. -/
theorem compiled_script_runs {job : Job} {operation : Bytes} (hlanguage : job.HasLanguage)
    (hslug : checkPath operation job.repository.slug = .ok ()) :
    ∃ tree, Script.tree job = .ok tree ∧
      (∀ header footer, ∃ compiled, Script.compile header footer job = .ok compiled ∧
        compiled.tree = tree) ∧
      (Machine.fresh.run tree).fault? = none ∧
      (Machine.fresh.run tree).machine.cwd =
        (if Path.isAbsolute job.repository.slug then Path.clean job.repository.slug
          else Path.join [bytes "/home/travis/build", job.repository.slug]) ∧
      (Machine.fresh.run tree).machine.env = Script.exported ∧
      (Machine.fresh.run tree).machine.log = Script.commands job ∧
      ∀ executed ∈ (Machine.fresh.run tree).machine.log, Script.updates executed.command = false := by
  have htext := isPathText_of_checkPath hslug
  obtain ⟨language, hall, hjob⟩ := Script.forJob_of_mem hlanguage
  obtain ⟨root, hleads⟩ := Script.leads_treeIn hall htext
  obtain ⟨hmachine, hfault⟩ := hleads.run
  rw [Script.languageCommands_forJob hjob] at hmachine
  refine ⟨Script.treeIn language job, ?_, ?_, hfault, ?_, ?_, ?_, ?_⟩
  · rw [Script.tree, hjob]
    rfl
  · intro header footer
    cases Script.ends_compile header footer job with
    | unknown hunknown h => exact absurd hlanguage hunknown
    | refused hknown hrefused cause h => exact absurd (isPathText_iff.1 htext) hrefused
    | compiled hknown htext result h =>
      refine ⟨result, h, ?_⟩
      simp only [Script.compile, hjob] at h
      split at h
      · cases h
      · cases h
        rfl
  · rw [hmachine]
    rfl
  · rw [hmachine]
  · rw [hmachine]
    rfl
  · rw [hmachine]
    exact Script.commands_update_nothing job

/-- A pull request in a repository whose slug leads up and through the name of a repository's own
directory. -/
def wanderingJob : Job :=
  { Job.sample with
    revision := { Job.sample.revision with ref? := some (bytes "refs/pull/1/merge"), pullRequest := true }
    repository := ⟨bytes "..//a/.git/..", bytes "a.git"⟩
    config := ⟨bytes "rust", GitConfig.default, [bytes "redis", bytes "mysql"]⟩
    paranoid := true }

/-- The same pull request in a repository with a blank in its slug, fetched as an archive. -/
def archivedJob : Job :=
  { wanderingJob with
    repository := ⟨bytes "a b/c", bytes "a.git"⟩
    config := ⟨[], { GitConfig.default with strategy := GitConfig.tarball }, []⟩
    paranoid := false }

theorem compiled_script_runs_sample :
    (wanderingJob.HasLanguage ∧ checkPath [] wanderingJob.repository.slug = .ok () ∧
      ∃ tree, Script.tree wanderingJob = .ok tree ∧ (Machine.fresh.run tree).fault? = none ∧
        (Machine.fresh.run tree).machine.cwd = bytes "/home/travis/a" ∧
        (Machine.fresh.run tree).machine.log.map Executed.command =
          [bytes "git clone --depth=50 a.git ..//a/.git/..",
            bytes "git fetch origin +refs/pull/1/merge:", bytes "git checkout -qf FETCH_HEAD",
            bytes "sudo service redis-server start", bytes "sudo service mysql start", bytes "echo",
            bytes "echo " ++ Script.paranoidNotice, Script.paranoidCommand, bytes "rustc --version",
            bytes "cargo --version", bytes "cargo build --verbose", bytes "cargo test --verbose"]) ∧
    archivedJob.HasLanguage ∧ checkPath [] archivedJob.repository.slug = .ok () ∧
    ∃ tree, Script.tree archivedJob = .ok tree ∧ (Machine.fresh.run tree).fault? = none ∧
      (Machine.fresh.run tree).machine.cwd = bytes "/home/travis/build/a b/c" ∧
      (Machine.fresh.run tree).machine.log.map Executed.command =
        [bytes "curl -o a\\ b-c.tar.gz -L https://api.github.com/repos/a\\ b/c/tarball/abcdef",
          bytes "tar xfz a\\ b-c.tar.gz --strip-components=1 -C a\\ b/c"] := by
  constructor
  · have hlanguage : wanderingJob.HasLanguage := by
      rw [Job.HasLanguage]
      decide
    have hslug : checkPath [] wanderingJob.repository.slug = .ok () := by decide +kernel
    obtain ⟨tree, htree, -, hfault, hcwd, -, hlog, -⟩ := compiled_script_runs hlanguage hslug
    have hwhere : Checkout.workDir wanderingJob.repository.slug = bytes "/home/travis/a" := by
      decide +kernel
    have hcheckout : (Checkout.commands wanderingJob).map Executed.command =
        [bytes "git clone --depth=50 a.git ..//a/.git/..", bytes "git fetch origin +refs/pull/1/merge:",
          bytes "git checkout -qf FETCH_HEAD"] := by decide +kernel
    have hservices : (Script.serviceCommands wanderingJob).map Executed.command =
        [bytes "sudo service redis-server start", bytes "sudo service mysql start"] := by decide +kernel
    have hfixes : Script.fixCommands wanderingJob = [] := rfl
    have hparanoid : Script.paranoidCommands wanderingJob = _ := if_pos rfl
    have hrust : Script.languageCommands wanderingJob.config.language = _ := if_pos rfl
    refine ⟨hlanguage, hslug, tree, htree, hfault, hcwd.trans hwhere, ?_⟩
    rw [hlog, Script.commands, List.map_append, List.map_append, List.map_append, List.map_append,
      hcheckout, hservices, hfixes, hparanoid, hrust]
    simp only [List.map_cons, List.map_nil, List.nil_append, List.cons_append]
  · have hlanguage : archivedJob.HasLanguage := by
      rw [Job.HasLanguage]
      decide
    have hslug : checkPath [] archivedJob.repository.slug = .ok () := by decide +kernel
    obtain ⟨tree, htree, -, hfault, hcwd, -, hlog, -⟩ := compiled_script_runs hlanguage hslug
    have hwhere : Checkout.workDir archivedJob.repository.slug = bytes "/home/travis/build/a b/c" := by
      decide +kernel
    refine ⟨hlanguage, hslug, tree, htree, hfault, hcwd.trans hwhere, ?_⟩
    rw [hlog]
    decide +kernel

end BuildScript
