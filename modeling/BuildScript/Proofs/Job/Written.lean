import BuildScript.Proofs.Job.FirstFault
import Mathlib.Data.List.Nodup

/-!
# Jobs written as documents

A job has a natural document: one object for each of its parts, with a field for each thing that the job
says. A format may hand out the same document in other ways. The fields of an object come in any order,
with others among them that mean nothing to a job, and an object may be a table whose keys are texts.

* `Job.document`: the natural document of a job. `Job.WrittenAs`: all documents that say the same.
* `Document.get?_among`: a known key has one value, wherever its field stands.
* `Section.SameFor`: fields that look the same to one who knows some keys only. Every reader of a part of
  a job **sees its own keys and nothing else** (`Job.ofSection_congr`).
* `written_job_read_back`: a job is read back from every document that it is written as.
-/

namespace BuildScript

/-! ## Known and unknown keys -/

namespace Document

variable {known : List String} {fields all : List (Bytes × Document)} {doc : Document}

/-- Fields in any order, among others with unknown keys. -/
def Among (known : List String) (fields all : List (Bytes × Document)) : Prop :=
  ∃ others, (∀ field ∈ others, field.1 ∉ known.map bytes) ∧ all.Perm (fields ++ others)

/-- An object, or a table, that has these fields among others with unknown keys. -/
inductive Holds (known : List String) (fields : List (Bytes × Document)) : Document → Prop where
  | object {all : List (Bytes × Document)} (h : Among known fields all) : Holds known fields (object all)
  | table {all : List (Bytes × Document)} (h : Among known fields all) :
    Holds known fields (table (all.map fun field => (text field.1, field.2)))

theorem pairFields?_map (all : List (Bytes × Document)) :
    pairFields? (all.map fun field => (text field.1, field.2)) = some all := by
  induction all with
  | nil => rfl
  | cons field rest ih => rw [List.map_cons, pairFields?, ih, Option.map_some]

theorem Holds.fields? (h : Holds known fields doc) :
    ∃ all, Among known fields all ∧ doc.fields? = some all := by
  cases h with
  | object h => exact ⟨_, h, rfl⟩
  | table h => exact ⟨_, h, pairFields?_map _⟩

theorem among_self (known : List String) (fields : List (Bytes × Document)) : Among known fields fields :=
  ⟨[], fun _ h => absurd h List.not_mem_nil, by rw [List.append_nil]⟩

/-- The value of a key is that of the last field with the key. -/
theorem get?_eq_getLast? (key : Bytes) (fields : List (Bytes × Document)) :
    get? key fields = ((fields.filter fun field => field.1 = key).getLast?).map (·.2) := by
  rw [get?_eq_find?, ← List.head?_filter, List.filter_reverse, List.head?_reverse]

/-- **A known key** has the same value wherever its field stands. -/
theorem get?_among (h : Among known fields all) (hkeys : (fields.map (·.1)).Nodup) {key : String}
    (hkey : key ∈ known) : get? (bytes key) all = get? (bytes key) fields := by
  obtain ⟨others, hothers, hperm⟩ := h
  -- no other field has the key, and one of the fields at most has it
  have hnone : (others.filter fun field => field.1 = bytes key) = [] := by
    rw [List.filter_eq_nil_iff]
    intro field hfield heq
    have hother := hothers field hfield
    rw [of_decide_eq_true heq] at hother
    exact hother (List.mem_map_of_mem hkey)
  have hfilter := hperm.filter fun field => field.1 = bytes key
  rw [List.filter_append, hnone, List.append_nil] at hfilter
  have hcount : (fields.filter fun field => field.1 = bytes key).length ≤ 1 := by
    have h := List.nodup_iff_count_le_one.1 hkeys (bytes key)
    rw [List.count, List.countP_map, List.countP_eq_length_filter] at h
    simpa only [Function.comp_def, beq_eq_decide] using h
  have heq : (all.filter fun field => field.1 = bytes key) =
      fields.filter fun field => field.1 = bytes key := by
    generalize (fields.filter fun field => field.1 = bytes key) = row at hfilter hcount
    rcases row with _ | ⟨field, _ | ⟨next, rest⟩⟩
    · exact hfilter.eq_nil
    · exact List.perm_singleton.1 hfilter
    · rw [List.length_cons, List.length_cons] at hcount
      omega
  rw [get?_eq_getLast?, get?_eq_getLast?, heq]

end Document

/-! ## What a reader sees -/

namespace Section

variable {keys : List String} {s t : Section} {key : String}

/-- Fields that look the same to one who knows these keys only. -/
structure SameFor (keys : List String) (s t : Section) : Prop where
  name : s.name = t.name
  lookup : ∀ key ∈ keys, s.lookup (bytes key) = t.lookup (bytes key)

namespace SameFor

theorem dotted (h : SameFor keys s t) (key : Bytes) : s.dotted key = t.dotted key := by
  rw [Section.dotted, Section.dotted, h.name]

theorem optional {α : Type} (h : SameFor keys s t) (hkey : key ∈ keys) (expected : String)
    (read : Document → Option α) : s.optional key expected read = t.optional key expected read := by
  rw [Section.optional, Section.optional, h.lookup key hkey, h.dotted]

theorem required {α : Type} (h : SameFor keys s t) (hkey : key ∈ keys) (expected : String)
    (read : Document → Option α) : s.required key expected read = t.required key expected read := by
  rw [Section.required, Section.required, h.optional hkey, h.dotted]

theorem requiredObject (h : SameFor keys s t) (hkey : key ∈ keys) :
    s.requiredObject key = t.requiredObject key := by
  rw [Section.requiredObject, Section.requiredObject, h.required hkey, h.dotted]

theorem optionalObject (h : SameFor keys s t) (hkey : key ∈ keys) :
    s.optionalObject key = t.optionalObject key := by
  rw [Section.optionalObject, Section.optionalObject, h.optional hkey, h.dotted]

theorem strategy? (h : SameFor keys s t) (hkey : key ∈ keys) : s.strategy? key = t.strategy? key := by
  rw [Section.strategy?, Section.strategy?, Section.text?, Section.text?, h.optional hkey, h.dotted]

end SameFor

/-- Unknown keys and the order of the fields are not seen. -/
theorem sameFor_among {name : Bytes} {fields all : List (Bytes × Document)}
    (h : Document.Among keys fields all) (hkeys : (fields.map (·.1)).Nodup) :
    SameFor keys ⟨name, all⟩ ⟨name, fields⟩ := by
  refine ⟨rfl, fun key hkey => ?_⟩
  rw [lookup, lookup, Document.get?_among h hkeys hkey]

/-- What is read from an object is what is read from its known fields. -/
theorem reads_holds {α : Type} {read : Section → Except FieldFault α} {fields : List (Bytes × Document)}
    {doc : Document} (h : Document.Holds keys fields doc) (hkeys : (fields.map (·.1)).Nodup)
    (hcongr : ∀ s t, SameFor keys s t → read s = read t) :
    ∃ all, doc.fields? = some all ∧ ∀ name, read ⟨name, all⟩ = read ⟨name, fields⟩ := by
  obtain ⟨all, hamong, hfields⟩ := h.fields?
  exact ⟨all, hfields, fun name => hcongr _ _ (sameFor_among hamong hkeys)⟩

theorem optional_object {doc : Document} {all : List (Bytes × Document)}
    (hget : Document.get? (bytes key) s.fields = some doc) (hfields : doc.fields? = some all) :
    s.optional key "an object" Document.fields? = .ok (some all) := by
  -- a null has no fields
  have hlookup : s.lookup (bytes key) = some doc := by
    rw [lookup, hget]
    cases doc with
    | null => cases hfields
    | _ => rfl
  rw [optional, hlookup]
  dsimp only
  rw [hfields]

theorem optionalObject_eq {doc : Document} {all : List (Bytes × Document)}
    (hget : Document.get? (bytes key) s.fields = some doc) (hfields : doc.fields? = some all) :
    s.optionalObject key = .ok ⟨s.dotted (bytes key), all⟩ := by
  rw [optionalObject, optional_object hget hfields]
  rfl

theorem requiredObject_eq {doc : Document} {all : List (Bytes × Document)}
    (hget : Document.get? (bytes key) s.fields = some doc) (hfields : doc.fields? = some all) :
    s.requiredObject key = .ok ⟨s.dotted (bytes key), all⟩ := by
  rw [requiredObject, required, optional_object hget hfields]
  rfl

end Section

/-- The keys of a revision. -/
def Revision.keys : List String := ["branch", "commit", "ref", "pull_request"]

/-- The keys of a repository. -/
def Repository.keys : List String := ["slug", "source_url"]

/-- The keys of the settings of a checkout. -/
def GitConfig.keys : List String := ["depth", "submodules", "submodules_depth", "strategy"]

/-- The keys of the settings of a build. -/
def Config.keys : List String := ["language", "git", "services"]

/-- The keys of a job. -/
def Job.keys : List String :=
  ["job", "repository", "config", "paranoid", "skip_resolv_updates", "skip_etc_hosts_fix"]

theorem Revision.ofSection_congr {s t : Section} (h : s.SameFor Revision.keys t) :
    Revision.ofSection s = Revision.ofSection t := by
  unfold Revision.ofSection Section.text Section.text? Section.bool
  rw [h.required (by decide), h.required (by decide), h.optional (by decide), h.required (by decide)]

theorem Repository.ofSection_congr {s t : Section} (h : s.SameFor Repository.keys t) :
    Repository.ofSection s = Repository.ofSection t := by
  unfold Repository.ofSection Section.text
  rw [h.required (by decide), h.required (by decide)]

theorem GitConfig.ofSection_congr {s t : Section} (h : s.SameFor GitConfig.keys t) :
    GitConfig.ofSection s = GitConfig.ofSection t := by
  unfold GitConfig.ofSection Section.natural? Section.bool?
  rw [h.optional (by decide), h.optional (by decide), h.optional (by decide), h.strategy? (by decide)]

theorem Config.ofSection_congr {s t : Section} (h : s.SameFor Config.keys t) :
    Config.ofSection s = Config.ofSection t := by
  unfold Config.ofSection Section.text? Section.texts?
  rw [h.optional (by decide), h.optionalObject (by decide), h.optional (by decide)]

/-- **A job is read from its own keys**, and from nothing else. -/
theorem Job.ofSection_congr {s t : Section} (h : s.SameFor Job.keys t) :
    Job.ofSection s = Job.ofSection t := by
  unfold Job.ofSection Section.bool?
  rw [h.requiredObject (by decide), h.requiredObject (by decide), h.requiredObject (by decide),
    h.optional (by decide), h.optional (by decide), h.optional (by decide)]

/-! ## Documents of jobs -/

/-- The fields of a revision. -/
def Revision.fields (revision : Revision) : List (Bytes × Document) :=
  [(bytes "branch", .text revision.branch), (bytes "commit", .text revision.commit)] ++
  (revision.ref?.map fun ref => (bytes "ref", .text ref)).toList ++
  [(bytes "pull_request", .bool revision.pullRequest)]

/-- The fields of a repository. -/
def Repository.fields (repository : Repository) : List (Bytes × Document) :=
  [(bytes "slug", .text repository.slug), (bytes "source_url", .text repository.sourceUrl)]

/-- The fields of the settings of a checkout. -/
def GitConfig.fields (git : GitConfig) : List (Bytes × Document) :=
  [(bytes "depth", .natural git.depth), (bytes "submodules", .bool git.submodules)] ++
  (git.submodulesDepth?.map fun depth => (bytes "submodules_depth", .natural depth)).toList ++
  [(bytes "strategy", .text git.strategy)]

/-- The fields of the settings of a build, with the document of those of the checkout. -/
def Config.fields (config : Config) (git : Document) : List (Bytes × Document) :=
  [(bytes "language", .text config.language), (bytes "git", git),
    (bytes "services", .list (config.services.map .text))]

/-- The fields of a job, with the documents of its parts. -/
def Job.fields (job : Job) (revision repository config : Document) : List (Bytes × Document) :=
  [(bytes "job", revision), (bytes "repository", repository), (bytes "config", config),
    (bytes "paranoid", .bool job.paranoid), (bytes "skip_resolv_updates", .bool (!job.fixResolvConf)),
    (bytes "skip_etc_hosts_fix", .bool (!job.fixEtcHosts))]

/-- The natural document of a job. -/
def Job.document (job : Job) : Document :=
  .object (job.fields (.object job.revision.fields) (.object job.repository.fields)
    (.object (job.config.fields (.object job.config.git.fields))))

/-- A document that says what a job says: its objects may be tables, with their fields in any order and
among others with unknown keys. -/
def Job.WrittenAs (job : Job) (doc : Document) : Prop :=
  ∃ revision repository git config,
    Document.Holds Revision.keys job.revision.fields revision ∧
    Document.Holds Repository.keys job.repository.fields repository ∧
    Document.Holds GitConfig.keys job.config.git.fields git ∧
    Document.Holds Config.keys (job.config.fields git) config ∧
    Document.Holds Job.keys (job.fields revision repository config) doc

theorem Revision.ofSection_fields (name : Bytes) (revision : Revision) :
    Revision.ofSection ⟨name, revision.fields⟩ = .ok revision := by
  obtain ⟨branch, commit, ref?, pullRequest⟩ := revision
  cases ref? <;> rfl

theorem Repository.ofSection_fields (name : Bytes) (repository : Repository) :
    Repository.ofSection ⟨name, repository.fields⟩ = .ok repository := rfl

theorem GitConfig.ofSection_fields (name : Bytes) {git : GitConfig}
    (h : git.strategy = GitConfig.clone ∨ git.strategy = GitConfig.tarball) :
    GitConfig.ofSection ⟨name, git.fields⟩ = .ok git := by
  obtain ⟨depth, submodules, bound?, strategy⟩ := git
  rcases h with rfl | rfl
  · cases bound? <;> rfl
  · cases bound? <;> rfl

theorem Revision.nodup_fields (revision : Revision) : (revision.fields.map (·.1)).Nodup := by
  obtain ⟨branch, commit, ref?, pullRequest⟩ := revision
  cases ref? with
  | none => exact (by decide : [bytes "branch", bytes "commit", bytes "pull_request"].Nodup)
  | some ref => exact (by decide : (Revision.keys.map bytes).Nodup)

theorem GitConfig.nodup_fields (git : GitConfig) : (git.fields.map (·.1)).Nodup := by
  obtain ⟨depth, submodules, bound?, strategy⟩ := git
  cases bound? with
  | none => exact (by decide : [bytes "depth", bytes "submodules", bytes "strategy"].Nodup)
  | some bound => exact (by decide : (GitConfig.keys.map bytes).Nodup)

theorem texts?_map (texts : List Bytes) : Document.texts? (texts.map .text) = some texts := by
  induction texts with
  | nil => rfl
  | cons text rest ih => rw [List.map_cons, Document.texts?, ih, Option.map_some]

theorem Config.ofSection_fields (name : Bytes) {config : Config} {git : Document}
    (hstrategy : config.git.strategy = GitConfig.clone ∨ config.git.strategy = GitConfig.tarball)
    (hgit : Document.Holds GitConfig.keys config.git.fields git) :
    Config.ofSection ⟨name, config.fields git⟩ = .ok config := by
  obtain ⟨all, hfields, hread⟩ := Section.reads_holds hgit config.git.nodup_fields
    fun _ _ => GitConfig.ofSection_congr
  have hlanguage : Section.text? ⟨name, config.fields git⟩ "language" = .ok (some config.language) := rfl
  have hobject : Section.optionalObject ⟨name, config.fields git⟩ "git" = .ok ⟨_, all⟩ :=
    Section.optionalObject_eq rfl hfields
  have hservices : Section.texts? ⟨name, config.fields git⟩ "services" = .ok (some config.services) := by
    have hfound : Section.lookup ⟨name, config.fields git⟩ (bytes "services") =
      some (.list (config.services.map .text)) := rfl
    rw [Section.texts?, Section.optional, hfound]
    dsimp only [Section.readTexts]
    rw [texts?_map]
  simp only [Config.ofSection, hlanguage, hobject, hread, GitConfig.ofSection_fields _ hstrategy, hservices,
    bind, Except.bind]
  rfl

theorem Job.ofSection_fields (name : Bytes) {job : Job} {revision repository git config : Document}
    (hstrategy : job.config.git.strategy = GitConfig.clone ∨ job.config.git.strategy = GitConfig.tarball)
    (hrevision : Document.Holds Revision.keys job.revision.fields revision)
    (hrepository : Document.Holds Repository.keys job.repository.fields repository)
    (hgit : Document.Holds GitConfig.keys job.config.git.fields git)
    (hconfig : Document.Holds Config.keys (job.config.fields git) config) :
    Job.ofSection ⟨name, job.fields revision repository config⟩ = .ok job := by
  obtain ⟨revisionFields, hrevision, hreadRevision⟩ := Section.reads_holds hrevision
    job.revision.nodup_fields fun _ _ => Revision.ofSection_congr
  obtain ⟨repositoryFields, hrepository, hreadRepository⟩ := Section.reads_holds hrepository
    (by decide : (Repository.keys.map bytes).Nodup) fun _ _ => Repository.ofSection_congr
  obtain ⟨configFields, hconfig, hreadConfig⟩ := Section.reads_holds hconfig
    (by decide : (Config.keys.map bytes).Nodup) fun _ _ => Config.ofSection_congr
  have hjob : Section.requiredObject ⟨name, job.fields revision repository config⟩ "job" =
    .ok ⟨_, revisionFields⟩ := Section.requiredObject_eq rfl hrevision
  have hsource : Section.requiredObject ⟨name, job.fields revision repository config⟩ "repository" =
    .ok ⟨_, repositoryFields⟩ := Section.requiredObject_eq rfl hrepository
  have hsettings : Section.requiredObject ⟨name, job.fields revision repository config⟩ "config" =
    .ok ⟨_, configFields⟩ := Section.requiredObject_eq rfl hconfig
  have hparanoid : Section.bool? ⟨name, job.fields revision repository config⟩ "paranoid" =
    .ok (some job.paranoid) := rfl
  have hresolv : Section.bool? ⟨name, job.fields revision repository config⟩ "skip_resolv_updates" =
    .ok (some (!job.fixResolvConf)) := rfl
  have hhosts : Section.bool? ⟨name, job.fields revision repository config⟩ "skip_etc_hosts_fix" =
    .ok (some (!job.fixEtcHosts)) := rfl
  simp only [Job.ofSection, hjob, hreadRevision, Revision.ofSection_fields, hsource, hreadRepository,
    Repository.ofSection_fields, hsettings, hreadConfig, Config.ofSection_fields _ hstrategy hgit, hparanoid,
    hresolv, hhosts, bind, Except.bind, Option.getD_some, Bool.not_not]
  rfl

/-- The natural document is one of the ways to write a job. -/
theorem Job.writtenAs_document (job : Job) : job.WrittenAs job.document :=
  ⟨_, _, _, _, .object (Document.among_self _ _), .object (Document.among_self _ _),
    .object (Document.among_self _ _), .object (Document.among_self _ _), .object (Document.among_self _ _)⟩

/-- **A written job is read back**, from its natural document and from every other one that says the same:
with tables for objects, with the fields of each in any order, and with unknown keys among them. -/
theorem written_job_read_back (job : Job)
    (hstrategy : job.config.git.strategy = GitConfig.clone ∨ job.config.git.strategy = GitConfig.tarball) :
    Job.ofDocument job.document = .ok job ∧ ∀ doc, job.WrittenAs doc → Job.ofDocument doc = .ok job := by
  have hwritten : ∀ doc, job.WrittenAs doc → Job.ofDocument doc = .ok job := by
    intro doc h
    obtain ⟨revision, repository, git, config, hrevision, hrepository, hgit, hconfig, hdoc⟩ := h
    have hkeys : (Job.keys.map bytes).Nodup := by decide
    obtain ⟨all, hfields, hread⟩ := Section.reads_holds hdoc hkeys fun _ _ => Job.ofSection_congr
    have hknown := Job.ofSection_fields [] hstrategy hrevision hrepository hgit hconfig
    unfold Job.ofDocument
    rw [hfields]
    exact (hread []).trans hknown
  exact ⟨hwritten job.document job.writtenAs_document, hwritten⟩

/-- A job with an empty reference and the greatest depth. -/
def edgeJob : Job :=
  ⟨⟨bytes "main", [], some [], true⟩, ⟨bytes "a/b", bytes "git@x"⟩,
    ⟨[], ⟨18446744073709551615, false, none, GitConfig.tarball⟩, [[], bytes "redis"]⟩, true, false, true⟩

/-- The document of `edgeJob` with tables in place of some objects, and an unknown key in front of each. -/
def edgeDocument : Document :=
  let more : List (Bytes × Document) := [(bytes "Ref", .list [.null])]
  let asTable (fields : List (Bytes × Document)) : Document :=
    .table ((more ++ fields).map fun field => (.text field.1, field.2))
  asTable (edgeJob.fields (asTable edgeJob.revision.fields) (.object (more ++ edgeJob.repository.fields))
    (.object (more ++ edgeJob.config.fields (asTable edgeJob.config.git.fields))))

theorem written_job_read_back_edge : edgeJob.WrittenAs edgeDocument ∧
    Job.ofDocument edgeDocument = .ok edgeJob ∧ Job.ofDocument edgeJob.document = .ok edgeJob := by
  have hmore : ∀ {known : List String} (fields : List (Bytes × Document)), bytes "Ref" ∉ known.map bytes →
      Document.Among known fields ([(bytes "Ref", .list [.null])] ++ fields) := by
    intro known fields h
    refine ⟨[(bytes "Ref", .list [.null])], fun field hfield => ?_, List.perm_append_comm⟩
    rw [List.mem_singleton.1 hfield]
    exact h
  have hwritten : edgeJob.WrittenAs edgeDocument :=
    ⟨_, _, _, _, .table (hmore _ (by decide)), .object (hmore _ (by decide)), .table (hmore _ (by decide)),
      .object (hmore _ (by decide)), .table (hmore _ (by decide))⟩
  have hread := written_job_read_back edgeJob (.inr rfl)
  exact ⟨hwritten, hread.2 edgeDocument hwritten, hread.1⟩

end BuildScript
