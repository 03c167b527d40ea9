import BuildScript.Compile.Checkout
import BuildScript.Compile.Frame
import BuildScript.Compile.Language
import BuildScript.Compile.Services
import BuildScript.Shell.Render

/-!
# The script of a job

The stages that every job has come first: fixes of the machine, the checkout, the services, the
paranoid mode and the exported variables. The stages of the job's language follow.

* `Script.tree`: the tree of a job.
* `Script.compile`: the tree with its text between a header and a footer.
-/

namespace BuildScript.Script

/-- Mends the name servers of a machine. -/
def resolvFix : Bytes :=
  bytes ("grep '199.91.168' /etc/resolv.conf > /dev/null || echo 'nameserver 199.91.168.70\n"
    ++ "nameserver 199.91.168.71' | sudo tee /etc/resolv.conf &> /dev/null")

/-- Mends the host names of a machine. -/
def hostsFix : Bytes :=
  bytes "sudo sed -e 's/^\\(127\\.0\\.0\\.1.*\\)$/\\1 '`hostname`'/' -i'.bak' /etc/hosts"

/-- What the paranoid mode tells. -/
def paranoidNotice : Bytes :=
  bytes "Sudo, the Firefox addon, setuid and setgid have been disabled."

/-- What the paranoid mode does. -/
def paranoidCommand : Bytes :=
  bytes ("sudo -n sh -c \"sed -e \\'s/^%.*//\\' -i.bak /etc/sudoers && rm -f /etc/sudoers.d/travis"
    ++ " && find / -perm -4000 -exec chmod a-s \x7b\x7d \\; 2>/dev/null\"")

/-- Statements in a row without the noops, and a noop if nothing is left: an empty stage leaves no
trace in a script. -/
def stage (statements : List Statement) : Statement :=
  let kept := statements.filter fun statement => !statement.isNoop
  if kept.isEmpty then .noop else .block kept

/-- The fixes that a job asks for. -/
def fixes (job : Job) : Statement :=
  stage
    [if job.fixResolvConf then .run (.raw resolvFix) [] else .noop,
      if job.fixEtcHosts then .run (.raw hostsFix) [] else .noop]

/-- The paranoid mode. -/
def paranoidMode (job : Job) : Statement :=
  if job.paranoid then
    .block
      [.run .newline [], .run (.echo paranoidNotice) [], .run (.raw paranoidCommand) []]
  else .noop

/-- The variables that every job exports. -/
def exports : Statement :=
  .block
    [.exporting (bytes "TRAVIS") (bytes "true"),
      .exporting (bytes "CI") (bytes "true"),
      .exporting (bytes "CONTINUOUS_INTEGRATION") (bytes "true"),
      .exporting (bytes "HAS_JOSH_K_SEAL_OF_APPROVAL") (bytes "true")]

/-- The stages that every job has. -/
def commonStages (job : Job) : Statement :=
  stage
    [fixes job, .fold (bytes "git.checkout") (Checkout.statement job), Services.statement job,
      paranoidMode job, exports]

/-- The stages of a language. -/
def languageStages (language : Language) : Statement :=
  stage
    [language.setup, language.announce,
      if language.install.isNoop then language.install
      else .fold (bytes "install") language.install,
      language.script]

/-- The tree of a job in a language. -/
def treeIn (language : Language) (job : Job) : Statement :=
  stage [commonStages job, languageStages language]

/-- The tree of a job. -/
def tree (job : Job) : Except UnknownLanguage Statement := do
  let language ← Language.forJob job.config.language
  return treeIn language job

/-- Why a job has no script. -/
inductive Fault where
  | language (fault : UnknownLanguage)
  | render (slug : Bytes) (fault : Shell.Fault)
  deriving Repr, DecidableEq

/-- The wording of a fault. -/
def Fault.message : Fault → Bytes
  | language fault => fault.message
  | render slug fault => bytes "rendering script for " ++ slug ++ bytes ": " ++ fault.message

/-- A script with the tree it comes from. -/
structure Compiled where
  tree : Statement
  language : Bytes
  text : Bytes

/-- Compiles a job. -/
def compile (header footer : Bytes) (job : Job) : Except Fault Compiled :=
  match Language.forJob job.config.language with
  | .error fault => .error (.language fault)
  | .ok language =>
    let tree := treeIn language job
    match tree.render with
    | .error fault => .error (.render job.repository.slug fault)
    | .ok body => .ok ⟨tree, language.name, header ++ body ++ [10] ++ footer⟩

end BuildScript.Script
