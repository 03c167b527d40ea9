import BuildScript.Proofs.Compile.Success
import BuildScript.Proofs.Machine.Leads
import BuildScript.Proofs.Machine.Writing

/-!
# The checkout of a job

A checkout starts in the home directory, on a machine with which anything may have been done before. The
tree decides three things only: whether a file is in the way, whether a clone is there already, and
whether it has submodules. The clone is looked for from the build directory and the submodules from
within the clone, and both are found in the directory that the slug means.

* `Checkout.commands`, `Checkout.updateCommands`, `Checkout.submoduleCommands`: the commands of a checkout,
  told without its tree.
* `Checkout.checkedOut`: a machine after a checkout. `leads_statement_iff`: **when a checkout is run to its
  end, and where it leads.**
* `log_cloned`, `log_unpacked`, `made_entered`: the log and the tree of that machine, told by the tree as it
  was before. `statement_done_iff`: so is whether the checkout fails.
* `checkout_from_any_state`: what a checkout does on every machine that can be reached.
-/

namespace BuildScript

open BuildScript.Path (segments IsProper IsClean)

namespace Checkout

/-! ## The commands of a checkout -/

/-- The commands that bring the source: it is cloned, or fetched as an archive and unpacked. -/
def fetchCommands (job : Job) : List Executed :=
  if job.config.git.strategy = GitConfig.tarball then
    [⟨bytes "curl -o " ++ Word.escape (archiveName job.repository.slug) ++ bytes " -L "
        ++ Word.escape (archiveUrl job), [.echo, .assert]⟩,
      ⟨bytes "tar xfz " ++ Word.escape (archiveName job.repository.slug)
        ++ bytes " --strip-components=1 -C " ++ Word.escape job.repository.slug, [.echo, .assert]⟩]
  else
    [⟨bytes "git clone " ++ cloneOptions job ++ bytes " " ++ job.repository.sourceUrl ++ bytes " "
        ++ job.repository.slug, [.echo, .assert]⟩]

/-- The commands that bring a clone up to date. -/
def updateCommands (job : Job) : List Executed :=
  [⟨bytes "git -C " ++ job.repository.slug ++ bytes " fetch origin", [.echo, .assert]⟩,
    ⟨bytes "git -C " ++ job.repository.slug ++ bytes " reset --hard", [.echo, .assert]⟩]

/-- The command that fetches a reference. An archive needs none. -/
def refCommands (job : Job) : List Executed :=
  match job.revision.ref? with
  | none => []
  | some ref =>
    if job.config.git.strategy = GitConfig.tarball then []
    else [⟨bytes "git fetch origin +" ++ ref ++ bytes ":", [.echo, .assert]⟩]

theorem refCommands_of_tarball {job : Job} (h : job.config.git.strategy = GitConfig.tarball) :
    refCommands job = [] := by
  unfold refCommands
  cases job.revision.ref? with
  | none => rfl
  | some ref => exact if_pos h

/-- The command that checks out what was fetched, or the commit. -/
def commitCommands (job : Job) : List Executed :=
  if job.config.git.strategy = GitConfig.tarball then []
  else if job.revision.pullRequest then [⟨bytes "git checkout -qf FETCH_HEAD", [.echo, .assert]⟩]
  else [⟨bytes "git checkout -qf " ++ job.revision.commit, [.echo, .assert]⟩]

theorem commitCommands_of_tarball {job : Job} (h : job.config.git.strategy = GitConfig.tarball) :
    commitCommands job = [] :=
  if_pos h

/-- The commands that update the submodules. -/
def submoduleCommands (job : Job) : List Executed :=
  [⟨bytes "git submodule init", [.echo]⟩,
    ⟨bytes "git submodule update"
      ++ match job.config.git.submodulesDepth? with
        | none => []
        | some depth => bytes " --depth=" ++ Bytes.ofNat depth.toNat, [.echo]⟩]

/-- The commands of a checkout. -/
def commands (job : Job) : List Executed :=
  fetchCommands job ++ refCommands job ++ commitCommands job

open Statement

theorem logs_checked (text : Bytes) : (checked text).Logs [⟨text, [.echo, .assert]⟩] := logs_raw _ _

theorem logs_fetchRef (job : Job) : (fetchRef job).Logs (refCommands job) := by
  unfold fetchRef refCommands
  simp only [isTarball_iff]
  cases job.revision.ref? with
  | none => exact logs_noop
  | some ref =>
    dsimp only
    split
    · exact logs_noop
    · exact logs_checked _

theorem logs_checkout (job : Job) : (checkout job).Logs (commitCommands job) := by
  have hhead : "git checkout -qf FETCH_HEAD" = "git checkout -qf " ++ "FETCH_HEAD" := by decide
  unfold checkout commitCommands
  simp only [isTarball_iff]
  rw [hhead, Bytes.bytes_append]
  split
  · exact logs_noop
  · split
    · exact logs_checked _
    · exact logs_checked _

/-! ## Where a checkout leads -/

variable {job : Job} {m m₁ : Machine} {rest : List Statement}

/-- The names on the way to the build directory. -/
def buildWay : List Bytes := [bytes "home", bytes "travis", bytes "build"]

/-- The directory into which the source of a repository is put. -/
def workDir (slug : Bytes) : Bytes :=
  if Path.isAbsolute slug then Path.clean slug else Path.join [buildDir, slug]

/-- A machine that has entered the build directory. -/
def entered (m : Machine) : Machine :=
  { m with
    root := (m.root.makeDir buildDir).root
    cwd := buildDir
    env := Machine.setVariable (bytes "GIT_ASKPASS") (bytes "echo") m.env }

/-- A machine after the source was brought. An archive leaves directories for the slug, and is not
kept. -/
def fetched (job : Job) (m : Machine) : Machine :=
  let slug := job.repository.slug
  if job.config.git.strategy = GitConfig.tarball then
    { m with
      root := (m.root.makeDir (m.resolve slug)).root.remove (m.resolve (archiveName slug))
      log := m.log ++ fetchCommands job }
  else
    { m with
      log := m.log ++
        if m.hasDirectory (Path.join [slug, bytes ".git"]) then updateCommands job
        else fetchCommands job }

/-- A machine after the submodules were updated, where there are some. -/
def updated (job : Job) (m : Machine) : Machine :=
  { m with
    log := m.log ++
      if job.config.git.submodules = true ∧ job.config.git.strategy ≠ GitConfig.tarball ∧
          m.hasFile (bytes ".gitmodules") = true then
        submoduleCommands job
      else [] }

/-- A machine after a checkout. -/
def checkedOut (job : Job) (m : Machine) : Machine :=
  let source := fetched job (entered m)
  updated job
    { source with
      cwd := workDir job.repository.slug
      log := source.log ++ refCommands job ++ commitCommands job }

theorem segments_buildDir : segments buildDir = buildWay := by decide

theorem resolve_of_buildDir (h : m.cwd = buildDir) (slug : Bytes) : m.resolve slug = workDir slug := by
  have hcwd : m.cwd ≠ [] := by
    rw [h]
    decide
  rw [Machine.resolve, if_neg hcwd, h]
  rfl

/-- The first steps of a checkout. -/
theorem leads_start_iff (hhome : m.cwd = Machine.home) :
    m.Leads (.sequence (.run (.makeDir buildDir) [] :: .run (.changeDir (bytes "build")) []
        :: .exporting (bytes "GIT_ASKPASS") (bytes "echo") :: rest)) m₁ ↔
      (∀ part, part <+: buildWay → m.root.kinds part ≠ some .file) ∧
        (entered m).Leads (.sequence rest) m₁ := by
  have hself : m.resolve buildDir = buildDir := by
    rw [Machine.resolve, if_pos (by decide)]
    decide
  have hbuild : Machine.resolve { m with root := (m.root.makeDir buildDir).root } (bytes "build") =
      buildDir := by
    rw [Machine.resolve, if_neg (by decide), hhome]
    decide
  have hinto := Machine.leads_changeDir (by decide) hbuild []
  rw [Machine.leads_makeDir_cons_iff (by decide) hself, segments_buildDir, hinto.cons_iff,
    (Machine.leads_setEnv _ _ _).cons_iff]
  rfl

/-- A clone is made, or brought up to date. -/
theorem leads_clone (hslug : isPathText job.repository.slug = true)
    (hclone : job.config.git.strategy ≠ GitConfig.tarball) (m : Machine) :
    m.Leads (clone job) (fetched job m) := by
  have hcommands : fetchCommands job = _ := if_neg hclone
  have hvalue : m.eval (.not (.isDirectory (Path.join [job.repository.slug, bytes ".git"]))) =
      .ok !m.hasDirectory (Path.join [job.repository.slug, bytes ".git"]) := by
    simp only [Machine.eval, Machine.evalPath, checkPath, isPathText_gitDir hslug, if_true]
    rfl
  simp only [fetched, hclone, if_false]
  cases hthere : m.hasDirectory (Path.join [job.repository.slug, bytes ".git"]) with
  | true =>
    rw [hthere] at hvalue
    exact Machine.Leads.onFalse hvalue (((logs_checked _).cons ((logs_checked _).cons logs_nil)) m) _
  | false =>
    rw [hthere] at hvalue
    simp only [Bool.false_eq_true, if_false]
    rw [hcommands]
    exact Machine.Leads.onTrue hvalue (((logs_checked _).cons logs_nil) m) _

/-- An archive is unpacked exactly if no file is in the way to where the slug leads. -/
theorem leads_tarball_iff (hslug : isPathText job.repository.slug = true)
    (htarball : job.config.git.strategy = GitConfig.tarball) :
    m.Leads (tarball job) m₁ ↔
      (∀ part, part <+: segments (m.resolve job.repository.slug) → m.root.kinds part ≠ some .file) ∧
        m₁ = fetched job m := by
  have hcommands : fetchCommands job = _ := if_pos htarball
  have hremove := fun m => Machine.leads_remove (m := m) (isPathText_archiveName hslug) []
  simp only [fetched, htarball, if_true]
  rw [hcommands, List.append_cons, tarball, Statement.block, Machine.leads_makeDir_cons_iff hslug rfl,
    Machine.Leads.cons_iff (logs_checked _ _), Machine.Leads.cons_iff (logs_checked _ _),
    (hremove _).cons_iff, (Machine.leads_nil _).eq_iff]
  rfl

/-- **Bringing the source** fails only where an archive has nowhere to be unpacked. -/
theorem leads_fetch_iff (hslug : isPathText job.repository.slug = true) :
    m.Leads (fetch job) m₁ ↔
      (job.config.git.strategy = GitConfig.tarball → ∀ part, part <+: segments (m.resolve job.repository.slug) →
        m.root.kinds part ≠ some .file) ∧ m₁ = fetched job m := by
  unfold fetch
  by_cases htarball : job.config.git.strategy = GitConfig.tarball
  · rw [if_pos (isTarball_iff.2 htarball), leads_tarball_iff hslug htarball]
    simp only [htarball, forall_const]
  · rw [if_neg (isTarball_iff.not.2 htarball), (leads_clone hslug htarball m).eq_iff]
    simp only [htarball, false_implies, true_and]

theorem leads_submodules (job : Job) (m : Machine) : m.Leads (submodules job) (updated job m) := by
  have htext : isPathText (bytes ".gitmodules") = true := by decide
  have hvalue : m.eval (.isFile (bytes ".gitmodules")) = .ok (m.hasFile (bytes ".gitmodules")) := by
    simp only [Machine.eval, Machine.evalPath, checkPath, htext, if_true]
  have hlines : (sequence [printed (bytes "git submodule init"), printed (bytes "git submodule update"
      ++ match job.config.git.submodulesDepth? with
        | none => []
        | some depth => bytes " --depth=" ++ Bytes.ofNat depth.toNat)]).Logs (submoduleCommands job) :=
    (logs_raw _ _).cons ((logs_raw _ _).cons logs_nil)
  have hskips : (!job.config.git.submodules || isTarball job) = true ↔
      ¬ (job.config.git.submodules = true ∧ job.config.git.strategy ≠ GitConfig.tarball) := by
    rw [Bool.or_eq_true, isTarball_iff, Bool.not_eq_true', not_and_or, Bool.not_eq_true, not_not]
  unfold submodules updated
  by_cases hasked : job.config.git.submodules = true ∧ job.config.git.strategy ≠ GitConfig.tarball
  · rw [if_neg (hskips.not.2 (not_not.2 hasked))]
    cases hfile : m.hasFile (bytes ".gitmodules") with
    | true =>
      rw [if_pos ⟨hasked.1, hasked.2, rfl⟩]
      exact Machine.Leads.onTrue (hvalue.trans (congrArg _ hfile)) (hlines m) _
    | false =>
      rw [if_neg fun h => Bool.false_ne_true h.2.2]
      exact Machine.Leads.onFalse (hvalue.trans (congrArg _ hfile)) (logs_noop m) _
  · rw [if_pos (hskips.2 hasked), if_neg fun h => hasked ⟨h.1, h.2.1⟩]
    exact logs_noop m

/-- **When a checkout is run to its end, and where it leads.** -/
theorem leads_statement_iff (hhome : m.cwd = Machine.home)
    (hslug : isPathText job.repository.slug = true) :
    m.Leads (statement job) m₁ ↔
      (∀ part, part <+: buildWay → m.root.kinds part ≠ some .file) ∧
      (job.config.git.strategy = GitConfig.tarball → ∀ part, part <+: segments (workDir job.repository.slug) →
        (entered m).root.kinds part ≠ some .file) ∧
      m₁ = checkedOut job m := by
  have hplace : (entered m).resolve job.repository.slug = workDir job.repository.slug :=
    resolve_of_buildDir rfl _
  have hcwd : (fetched job (entered m)).cwd = buildDir := by
    unfold fetched
    dsimp only
    split <;> rfl
  have hinto := Machine.leads_changeDir hslug (resolve_of_buildDir hcwd _) []
  rw [statement, Statement.block, leads_start_iff hhome, Machine.leads_cons_iff]
  simp only [leads_fetch_iff hslug, hplace, and_assoc, exists_and_left, exists_eq_left]
  rw [hinto.cons_iff, Machine.Leads.cons_iff (logs_fetchRef job _),
    Machine.Leads.cons_iff (logs_checkout job _), (leads_submodules job _).cons_iff,
    (Machine.leads_nil _).eq_iff]
  rfl

/-! ## What a checkout leaves -/

theorem env_checkedOut (job : Job) (m : Machine) :
    (checkedOut job m).env = Machine.setVariable (bytes "GIT_ASKPASS") (bytes "echo") m.env := by
  unfold checkedOut updated fetched
  dsimp only
  split <;> rfl

theorem log_unpacked (htarball : job.config.git.strategy = GitConfig.tarball) (m : Machine) :
    (checkedOut job m).log = m.log ++ fetchCommands job := by
  simp [checkedOut, updated, fetched, entered, htarball, refCommands_of_tarball htarball,
    commitCommands_of_tarball htarball]

theorem root_cloned (hclone : job.config.git.strategy ≠ GitConfig.tarball) (m : Machine) :
    (checkedOut job m).root = (entered m).root := by
  simp [checkedOut, updated, fetched, hclone]

section Tree

variable (hm : m.root.ordered = true) (hfree : ∀ part, part <+: buildWay → m.root.kinds part ≠ some .file)
include hm hfree

theorem made_entered : m.root.Made (entered m).root buildWay := by
  have hok : (m.root.makeDir buildDir).result = .ok () := by
    rwa [Folder.makeDir_ok_iff, segments_buildDir, Folder.makeDirs_stop_iff]
  rw [← segments_buildDir]
  exact Folder.made_of_contents hm (Folder.ordered_makeDir hm _) (Folder.contents_makeDir hok)

/-- What has a name of its own is found in the tree as it was before. -/
theorem kinds_entered {name : Bytes} (hname : name ∉ buildWay) (place : List Bytes) :
    (entered m).root.kinds (place ++ [name]) = m.root.kinds (place ++ [name]) := by
  have hnot : ¬ place ++ [name] <+: buildWay :=
    fun hway => hname (hway.subset (List.mem_append_right _ List.mem_cons_self))
  exact congrArg (Option.map Entry.kind) ((made_entered hm hfree).elsewhere _ hnot)

/-- Only files that were there before are in the way to a place. -/
theorem free_entered_iff (place : List Bytes) :
    (∀ part, part <+: place → (entered m).root.kinds part ≠ some .file) ↔
      ∀ part, part <+: place → m.root.kinds part ≠ some .file := by
  have hmade := made_entered hm hfree
  refine forall_congr' fun part => imp_congr_right fun _ => ?_
  by_cases hway : part <+: buildWay
  · refine iff_of_true (fun hfile => ?_) (hfree part hway)
    rw [hmade.way part hway] at hfile
    cases hfile
  · have hsame : (entered m).root.kinds part = m.root.kinds part :=
      congrArg (Option.map Entry.kind) (hmade.elsewhere part hway)
    rw [hsame]

/-- **The log of a checkout that clones**, told by what was in the directory of the slug before. -/
theorem log_cloned (hclone : job.config.git.strategy ≠ GitConfig.tarball) :
    (checkedOut job m).log = m.log ++
      (if m.root.kinds (segments (workDir job.repository.slug) ++ [bytes ".git"]) = some .dir then
        updateCommands job else fetchCommands job) ++
      refCommands job ++ commitCommands job ++
      (if job.config.git.submodules = true ∧
          m.root.kinds (segments (workDir job.repository.slug) ++ [bytes ".gitmodules"]) = some .file then
        submoduleCommands job else []) := by
  have hclean : IsClean buildDir := ⟨by decide, by decide⟩
  have hplace : (entered m).resolve job.repository.slug = workDir job.repository.slug :=
    resolve_of_buildDir rfl _
  have hwork : IsClean (workDir job.repository.slug) := by
    rw [← hplace]
    exact Machine.isClean_resolve (Or.inr hclean) _
  have hgit : (entered m).hasDirectory (Path.join [job.repository.slug, bytes ".git"]) = true ↔
      m.root.kinds (segments (workDir job.repository.slug) ++ [bytes ".git"]) = some .dir := by
    have hname : IsProper (bytes ".git") := ⟨⟨by decide, by decide⟩, by decide, by decide⟩
    rw [Machine.hasDirectory_iff, Machine.segments_resolve_join (Or.inr hclean) hname, hplace,
      kinds_entered hm hfree (by decide)]
  have hmodules : ∀ log, Machine.hasFile { entered m with cwd := workDir job.repository.slug, log }
        (bytes ".gitmodules") = true ↔
      m.root.kinds (segments (workDir job.repository.slug) ++ [bytes ".gitmodules"]) = some .file := by
    intro log
    have hname : IsProper (bytes ".gitmodules") := ⟨⟨by decide, by decide⟩, by decide, by decide⟩
    rw [Machine.hasFile_iff, Machine.segments_resolve_name (Or.inr hwork) hname]
    dsimp only
    rw [kinds_entered hm hfree (by decide)]
  simp only [checkedOut, updated, fetched, hclone, if_false, ne_eq, not_false_eq_true, true_and, hgit,
    hmodules]
  rfl

end Tree

/-! ## Runs -/

section Run

variable (hhome : m.cwd = Machine.home) (hslug : isPathText job.repository.slug = true)
include hhome hslug

/-- **When a checkout does not fail**, told by the tree as it was before. -/
theorem statement_done_iff (hm : m.root.ordered = true) : (m.run (statement job)).fault? = none ↔
    (∀ part, part <+: buildWay → m.root.kinds part ≠ some .file) ∧
      (job.config.git.strategy = GitConfig.tarball → ∀ part, part <+: segments (workDir job.repository.slug) →
        m.root.kinds part ≠ some .file) := by
  have hleads : (m.run (statement job)).fault? = none ↔ ∃ m₁, m.Leads (statement job) m₁ := by
    simp only [Machine.leads_iff, exists_and_left, exists_eq', and_true]
  simp only [hleads, leads_statement_iff hhome hslug, exists_and_left, exists_eq, and_true]
  refine and_congr_right fun hfree => ?_
  rw [free_entered_iff hm hfree]

/-- A checkout that does not fail leaves the machine that was told of. -/
theorem machine_statement (hdone : (m.run (statement job)).fault? = none) :
    (m.run (statement job)).machine = checkedOut job m :=
  ((leads_statement_iff hhome hslug).1 (Machine.leads_iff.2 ⟨hdone, rfl⟩)).2.2

end Run

/-- The directories on the way to the build directory. -/
theorem free_buildWay_iff : (∀ part, part <+: buildWay → m.root.kinds part ≠ some .file) ↔
    ∀ path ∈ [bytes "/home", bytes "/home/travis", bytes "/home/travis/build"],
      m.hasFile path = false := by
  have hfile : ∀ (path : Bytes) (place : List Bytes), Path.isAbsolute path = true →
      segments (Path.clean path) = place →
      (m.hasFile path = false ↔ m.root.kinds place ≠ some .file) := by
    intro path place habsolute hplace
    rw [← Bool.not_eq_true, Machine.hasFile_iff, Machine.resolve, if_pos habsolute, hplace]
  have hhome := hfile (bytes "/home") [bytes "home"] (by decide) (by decide)
  have htravis := hfile (bytes "/home/travis") [bytes "home", bytes "travis"] (by decide) (by decide)
  have hbuild := hfile (bytes "/home/travis/build") buildWay (by decide) (by decide)
  have htop : m.root.kinds [] ≠ some .file := by
    rw [Folder.kinds_nil]
    decide
  have hinits : buildWay.inits = [[], [bytes "home"], [bytes "home", bytes "travis"], buildWay] := by
    decide
  simp only [← List.mem_inits, hinits, List.forall_mem_cons, List.not_mem_nil, false_implies,
    implies_true, and_true, hhome, htravis, hbuild, and_iff_right htop]

end Checkout

open Checkout

/-- **What a checkout does**, whatever was done with the machine before. It ends in the directory of the
slug, and one variable is set. A clone is made, or brought up to date if there is one; the reference is
fetched, the commit checked out, and the submodules are updated if there are some. This fails only if a
file is in the way to the build directory, and with an archive also if one is in the way to the directory
of the slug. -/
theorem checkout_from_any_state {job : Job} {m : Machine} {operation place : Bytes}
    (hslug : checkPath operation job.repository.slug = .ok ()) (hm : m.Reachable)
    (hhome : m.cwd = bytes "/home/travis")
    (hplace : Machine.resolve { m with cwd := bytes "/home/travis/build" } job.repository.slug = place) :
    ((m.run (statement job)).fault? = none →
      (m.run (statement job)).machine.cwd = place ∧
      ∀ key, (m.run (statement job)).machine.env.lookup key =
        if key = bytes "GIT_ASKPASS" then some (bytes "echo") else m.env.lookup key) ∧
    (job.config.git.strategy ≠ GitConfig.tarball →
      ((m.run (statement job)).fault? = none ↔
        ∀ path ∈ [bytes "/home", bytes "/home/travis", bytes "/home/travis/build"],
          m.hasFile path = false) ∧
      ((m.run (statement job)).fault? = none →
        (m.run (statement job)).machine.log = m.log ++
          (if m.root.kinds (segments place ++ [bytes ".git"]) = some .dir then updateCommands job
            else fetchCommands job) ++
          refCommands job ++ commitCommands job ++
          (if job.config.git.submodules = true ∧
              m.root.kinds (segments place ++ [bytes ".gitmodules"]) = some .file then
            submoduleCommands job else []) ∧
        m.root.Made (m.run (statement job)).machine.root buildWay)) ∧
    (job.config.git.strategy = GitConfig.tarball →
      ((m.run (statement job)).fault? = none ↔
        (∀ path ∈ [bytes "/home", bytes "/home/travis", bytes "/home/travis/build"],
          m.hasFile path = false) ∧
        ∀ part, part <+: segments place → m.root.kinds part ≠ some .file) ∧
      ((m.run (statement job)).fault? = none →
        (m.run (statement job)).machine.log = m.log ++ fetchCommands job)) := by
  have htext := isPathText_of_checkPath hslug
  have hordered := hm.sound.ordered
  have hwork : workDir job.repository.slug = place :=
    (resolve_of_buildDir (m := { m with cwd := buildDir }) rfl _).symm.trans hplace
  have hdone := statement_done_iff hhome htext hordered
  have hmachine := machine_statement hhome htext
  rw [hwork, free_buildWay_iff] at hdone
  refine ⟨fun h => ?_, fun hclone => ⟨?_, fun h => ?_⟩, fun htarball => ⟨?_, fun h => ?_⟩⟩
  · rw [hmachine h, env_checkedOut]
    exact ⟨hwork, fun key => Machine.lookup_setVariable key _ _ _⟩
  · rw [hdone]
    simp only [hclone, false_implies, and_true]
  · have hfree := free_buildWay_iff.2 (hdone.1 h).1
    rw [hmachine h, root_cloned hclone, ← hwork]
    exact ⟨log_cloned hordered hfree hclone, made_entered hordered hfree⟩
  · rw [hdone]
    simp only [htarball, forall_const]
  · rw [hmachine h, log_unpacked htarball]

/-- A machine on which a repository with submodules was cloned before. -/
def returning : Machine :=
  Machine.fresh.after [.makeDir (bytes "build/a/.git"), .put (bytes "build/a/.gitmodules") (bytes "x")]

/-- A job whose slug does not lead straight to its directory. -/
def returningJob : Job :=
  { Job.sample with repository := ⟨bytes "b/..//a/.", bytes "a.git"⟩ }

theorem checkout_from_any_state_returning :
    checkPath [] returningJob.repository.slug = .ok () ∧ returning.Reachable ∧
    returning.cwd = bytes "/home/travis" ∧ (returning.run (statement returningJob)).fault? = none ∧
    (returning.run (statement returningJob)).machine.cwd = bytes "/home/travis/build/a" ∧
    (returning.run (statement returningJob)).machine.log.map Executed.command =
      [bytes "git -C b/..//a/. fetch origin", bytes "git -C b/..//a/. reset --hard",
        bytes "git checkout -qf abcdef", bytes "git submodule init", bytes "git submodule update"] := by
  have hslug : checkPath [] returningJob.repository.slug = .ok () := by decide +kernel
  have hreachable : returning.Reachable := ⟨.fresh, _, rfl⟩
  have hhome : returning.cwd = bytes "/home/travis" := by decide +kernel
  have hplace : Machine.resolve { returning with cwd := bytes "/home/travis/build" }
      returningJob.repository.slug = bytes "/home/travis/build/a" := by decide +kernel
  obtain ⟨hends, hclone, -⟩ := checkout_from_any_state hslug hreachable hhome hplace
  obtain ⟨hiff, hlog⟩ := hclone (by decide +kernel)
  have hdone := hiff.2 (by decide +kernel)
  refine ⟨hslug, hreachable, hhome, hdone, (hends hdone).1, ?_⟩
  rw [(hlog hdone).1]
  decide +kernel

end BuildScript
