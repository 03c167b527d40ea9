import BuildScript.Digest.Fingerprint
import BuildScript.Digest.Fnv

/-!
# Jobs

A job says what is to be built: a commit of a repository, and how to build it.

* `Job`: the whole description.
* `Job.sample`: a push build of `example_owner/example_repo`.
* `Job.hash`: a sum over all fields, to tell builds apart in logs.
* `Job.datum`: the job as a record, for a fingerprint.
-/

namespace BuildScript

/-- What is checked out. -/
structure Revision where
  branch : Bytes
  commit : Bytes
  ref? : Option Bytes
  pullRequest : Bool
  deriving Repr, DecidableEq

/-- Where it comes from. -/
structure Repository where
  slug : Bytes
  sourceUrl : Bytes
  deriving Repr, DecidableEq

/-- How it is checked out. -/
structure GitConfig where
  depth : UInt64
  submodules : Bool
  submodulesDepth? : Option UInt64
  strategy : Bytes
  deriving Repr, DecidableEq

/-- How it is built. -/
structure Config where
  language : Bytes
  git : GitConfig
  services : List Bytes
  deriving Repr, DecidableEq

/-- The description of a build. -/
structure Job where
  revision : Revision
  repository : Repository
  config : Config
  paranoid : Bool
  fixResolvConf : Bool
  fixEtcHosts : Bool
  deriving Repr, DecidableEq

namespace GitConfig

/-- The strategy that clones the repository. -/
def clone : Bytes := bytes "clone"

/-- The strategy that fetches an archive of the commit. -/
def tarball : Bytes := bytes "tarball"

/-- How a checkout is done unless a job says otherwise. -/
def default : GitConfig := ⟨50, true, none, clone⟩

/-- The record of a checkout's settings. -/
def datum (git : GitConfig) : Datum :=
  .record (bytes "GitConfig")
    [(bytes "Depth", .unsigned git.depth.toNat), (bytes "Submodules", .bool git.submodules),
      (bytes "SubmodulesDepth", (git.submodulesDepth?.map fun n => .unsigned n.toNat).getD .nothing),
      (bytes "Strategy", .text git.strategy)]

/-- The sum of a checkout's settings. -/
def hash (git : GitConfig) : UInt64 :=
  Fnv.ofRecord (bytes "GitConfig")
    [(bytes "Depth", Fnv.ofWord git.depth), (bytes "Submodules", Fnv.ofBool git.submodules),
      (bytes "SubmodulesDepth", Fnv.ofWord (git.submodulesDepth?.getD 0)),
      (bytes "Strategy", Fnv.sum git.strategy)]

end GitConfig

namespace Revision

/-- The record of a revision. -/
def datum (revision : Revision) : Datum :=
  .record (bytes "Job")
    [(bytes "Branch", .text revision.branch), (bytes "Commit", .text revision.commit),
      (bytes "Ref", (revision.ref?.map .text).getD .nothing),
      (bytes "PullRequest", .bool revision.pullRequest)]

/-- The sum of a revision. A missing reference counts as the number zero. -/
def hash (revision : Revision) : UInt64 :=
  Fnv.ofRecord (bytes "Job")
    [(bytes "Branch", Fnv.sum revision.branch), (bytes "Commit", Fnv.sum revision.commit),
      (bytes "Ref", (revision.ref?.map Fnv.sum).getD (Fnv.ofWord 0)),
      (bytes "PullRequest", Fnv.ofBool revision.pullRequest)]

end Revision

namespace Repository

/-- The record of a repository. -/
def datum (repository : Repository) : Datum :=
  .textRecord "Repository" [("Slug", repository.slug), ("SourceURL", repository.sourceUrl)]

/-- The sum of a repository. -/
def hash (repository : Repository) : UInt64 :=
  Fnv.ofRecord (bytes "Repository")
    [(bytes "Slug", Fnv.sum repository.slug), (bytes "SourceURL", Fnv.sum repository.sourceUrl)]

end Repository

namespace Config

/-- The record of a configuration. -/
def datum (config : Config) : Datum :=
  .record (bytes "Config")
    [(bytes "Language", .text config.language), (bytes "Git", config.git.datum),
      (bytes "Services", .list (config.services.map .text))]

/-- The sum of a configuration. -/
def hash (config : Config) : UInt64 :=
  Fnv.ofRecord (bytes "Config")
    [(bytes "Language", Fnv.sum config.language), (bytes "Git", config.git.hash),
      (bytes "Services", Fnv.ofList (config.services.map Fnv.sum))]

end Config

namespace Job

/-- A push build of `example_owner/example_repo` at commit `abcdef` on `master`. -/
def sample : Job where
  revision := ⟨bytes "master", bytes "abcdef", none, false⟩
  repository :=
    ⟨bytes "example_owner/example_repo", bytes "git://github.com/example_owner/example_repo.git"⟩
  config := ⟨[], GitConfig.default, []⟩
  paranoid := false
  fixResolvConf := false
  fixEtcHosts := false

/-- The record of a job. -/
def datum (job : Job) : Datum :=
  .record (bytes "Payload")
    [(bytes "Job", job.revision.datum), (bytes "Repository", job.repository.datum),
      (bytes "Config", job.config.datum), (bytes "Paranoid", .bool job.paranoid),
      (bytes "FixResolvConf", .bool job.fixResolvConf),
      (bytes "FixEtcHosts", .bool job.fixEtcHosts)]

/-- The sum of a job. -/
def sum (job : Job) : UInt64 :=
  Fnv.ofRecord (bytes "Payload")
    [(bytes "Job", job.revision.hash), (bytes "Repository", job.repository.hash),
      (bytes "Config", job.config.hash), (bytes "Paranoid", Fnv.ofBool job.paranoid),
      (bytes "FixResolvConf", Fnv.ofBool job.fixResolvConf),
      (bytes "FixEtcHosts", Fnv.ofBool job.fixEtcHosts)]

/-- The sum of a job, in hexadecimal. -/
def hash (job : Job) : Bytes := Bytes.ofNatHex job.sum.toNat

end Job

end BuildScript
