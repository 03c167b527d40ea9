import BuildScript.Job.Basic
import BuildScript.Path
import BuildScript.Shell.Word
import BuildScript.Tree.Statement

/-!
# Checking out the source

The commit of a job is put below the build directory, in a directory named by the repository's slug,
which becomes the working directory. It is cloned, or fetched as an archive.

* `Checkout.statement`: the whole stage.
-/

namespace BuildScript.Checkout

/-- Where repositories are put. -/
def buildDir : Bytes := bytes "/home/travis/build"

/-- A command that is printed, and fails the script if it fails. -/
def checked (text : Bytes) : Statement := .run (.raw text) [.echo, .assert]

/-- A command that is printed. -/
def printed (text : Bytes) : Statement := .run (.raw text) [.echo]

/-- Whether a job's source is fetched as an archive. -/
def isTarball (job : Job) : Bool := job.config.git.strategy = GitConfig.tarball

theorem isTarball_iff {job : Job} : isTarball job = true ↔ job.config.git.strategy = GitConfig.tarball :=
  decide_eq_true_iff

/-- The options of the clone command. The branch is named only if no reference is fetched later. -/
def cloneOptions (job : Job) : Bytes :=
  bytes "--depth=" ++ Bytes.ofNat job.config.git.depth.toNat
    ++ (if job.revision.ref?.isSome then []
        else bytes " --branch=" ++ Word.escape job.revision.branch)

/-- Clones the repository, or brings a clone that is there already up to date. -/
def clone (job : Job) : Statement :=
  let slug := job.repository.slug
  .either (.not (.isDirectory (Path.join [slug, bytes ".git"])))
    (.block
      [checked (bytes "git clone " ++ cloneOptions job ++ bytes " " ++ job.repository.sourceUrl
        ++ bytes " " ++ slug)])
    (.block
      [checked (bytes "git -C " ++ slug ++ bytes " fetch origin"),
        checked (bytes "git -C " ++ slug ++ bytes " reset --hard")])

/-- The file into which an archive of the repository is fetched. -/
def archiveName (slug : Bytes) : Bytes := Bytes.replaceByte Path.slash 45 slug ++ bytes ".tar.gz"

/-- Where the archive of a commit is fetched from. -/
def archiveUrl (job : Job) : Bytes :=
  bytes "https://api.github.com/repos/" ++ job.repository.slug ++ bytes "/tarball/"
    ++ job.revision.commit

/-- Fetches an archive of the commit and unpacks it without its top directory. -/
def tarball (job : Job) : Statement :=
  let slug := job.repository.slug
  let archive := archiveName slug
  .block
    [.run (.makeDir slug) [],
      checked (bytes "curl -o " ++ Word.escape archive ++ bytes " -L " ++ Word.escape (archiveUrl job)),
      checked (bytes "tar xfz " ++ Word.escape archive ++ bytes " --strip-components=1 -C "
        ++ Word.escape slug),
      .run (.remove archive) []]

/-- Brings the source. -/
def fetch (job : Job) : Statement := if isTarball job then tarball job else clone job

/-- Fetches the job's reference. -/
def fetchRef (job : Job) : Statement :=
  match job.revision.ref? with
  | none => .noop
  | some ref =>
    if isTarball job then .noop else checked (bytes "git fetch origin +" ++ ref ++ bytes ":")

/-- Checks the commit out; for a pull request, what was fetched. -/
def checkout (job : Job) : Statement :=
  if isTarball job then .noop
  else
    checked (bytes "git checkout -qf "
      ++ if job.revision.pullRequest then bytes "FETCH_HEAD" else job.revision.commit)

/-- Updates the submodules, if the repository has some. -/
def submodules (job : Job) : Statement :=
  if !job.config.git.submodules || isTarball job then .noop
  else
    .when (.isFile (bytes ".gitmodules"))
      [printed (bytes "git submodule init"),
        printed (bytes "git submodule update"
          ++ match job.config.git.submodulesDepth? with
            | none => []
            | some depth => bytes " --depth=" ++ Bytes.ofNat depth.toNat)]

/-- Checks out the commit of a job and leaves the working directory there. -/
def statement (job : Job) : Statement :=
  .block
    [.run (.makeDir buildDir) [],
      .run (.changeDir (bytes "build")) [],
      .exporting (bytes "GIT_ASKPASS") (bytes "echo"),
      fetch job,
      .run (.changeDir job.repository.slug) [],
      fetchRef job,
      checkout job,
      submodules job]

end BuildScript.Checkout
