import BuildScript.Job.Decode
import BuildScript.Proofs.Job.Numbers
import BuildScript.Proofs.Text.Parts

/-!
# The first fault of a document

A job is read from a document by five functions that look up one field after the other. What they do
together is told here by a list of checks, each of which looks at one place of the whole document. The
first check that fails is what is reported. If none fails, each part of the job is what was found at its
place, or a fixed value where nothing was found.

* `Document.at?`: what stands at a place of a document.
* `FieldCheck`, `Job.checks`: what is checked, in order. `firstFault?`: the first check that fails.
* `Follows`: a reader that reports the first fault of some checks. `Follows.bind`: **readers one after the
  other report the first fault of the checks of both.**
* `Job.DescribedBy`: the job that a document describes. `Job.DescribedBy.unique`: there is only one.
* `first_fault_or_job`: reading a job reports the first fault, or gives the job that is described.
-/

namespace BuildScript

/-! ## Places in a document -/

namespace Document

/-- Whether a document is a text. -/
def isText : Document → Bool
  | text _ => true
  | _ => false

/-- Whether a document is this text. -/
def isKey (key : Bytes) : Document → Bool
  | text other => other = key
  | _ => false

/-- The keys of an object or a table with their values. -/
def entries : Document → List (Document × Document)
  | object fields => fields.map fun field => (text field.1, field.2)
  | table pairs => pairs
  | _ => []

/-- Whether a document is an object, or a table all of whose keys are texts. -/
def isObject : Document → Bool
  | object _ => true
  | table pairs => pairs.all fun pair => pair.1.isText
  | _ => false

/-- The value of a key, the last one if there are several. A null is no value. -/
def value? (key : Bytes) (doc : Document) : Option Document :=
  match doc.entries.reverse.find? fun entry => entry.1.isKey key with
  | some (_, null) | none => none
  | some (_, value) => some value

/-- What stands at a place: the keys lead to it from the whole document. -/
def at? (doc : Document) : List String → Option Document
  | [] => some doc
  | key :: rest => (doc.value? (bytes key)).bind fun value => value.at? rest

theorem at?_append (doc : Document) (place more : List String) :
    doc.at? (place ++ more) = (doc.at? place).bind fun value => value.at? more := by
  induction place generalizing doc with
  | nil => rfl
  | cons key rest ih =>
    rw [List.cons_append, at?, at?]
    cases doc.value? (bytes key) with
    | none => rfl
    | some value => exact ih value

theorem at?_key (doc : Document) (key : String) : doc.at? [key] = doc.value? (bytes key) := by
  rw [at?]
  cases doc.value? (bytes key) <;> rfl

/-- The fields of a table are its pairs. -/
theorem entries_of_pairFields? {pairs : List (Document × Document)} {fields : List (Bytes × Document)}
    (h : pairFields? pairs = some fields) : pairs = fields.map fun field => (text field.1, field.2) := by
  induction pairs generalizing fields with
  | nil => cases h; rfl
  | cons pair rest ih =>
    obtain ⟨key, value⟩ := pair
    cases key with
    | text name =>
      rw [pairFields?] at h
      obtain ⟨others, hothers, rfl⟩ := Option.map_eq_some_iff.1 h
      rw [List.map_cons, ← ih hothers]
    | _ => cases h

theorem isSome_pairFields? (pairs : List (Document × Document)) :
    (pairFields? pairs).isSome = pairs.all fun pair => pair.1.isText := by
  induction pairs with
  | nil => rfl
  | cons pair rest ih =>
    obtain ⟨key, value⟩ := pair
    cases key with
    | text name => rw [pairFields?, Option.isSome_map, ih, List.all_cons, isText, Bool.true_and]
    | _ => rfl

theorem isSome_fields? (doc : Document) : doc.fields?.isSome = doc.isObject := by
  cases doc with
  | table pairs => exact isSome_pairFields? pairs
  | _ => rfl

theorem entries_of_fields? {doc : Document} {fields : List (Bytes × Document)}
    (h : doc.fields? = some fields) : doc.entries = fields.map fun field => (text field.1, field.2) := by
  cases doc with
  | object own => cases h; rfl
  | table pairs => exact entries_of_pairFields? h
  | _ => cases h

theorem get?_eq_find? (key : Bytes) (fields : List (Bytes × Document)) :
    get? key fields = (fields.reverse.find? fun field => field.1 = key).map (·.2) := by
  induction fields with
  | nil => rfl
  | cons field rest ih =>
    obtain ⟨other, value⟩ := field
    rw [get?, ih, List.reverse_cons, List.find?_append]
    cases rest.reverse.find? fun field => field.1 = key with
    | some later => rfl
    | none =>
      by_cases hkey : other = key
      · simp [hkey]
      · simp [hkey]

end Document

open Document

/-- A look-up among fields is a look-up in the document that they come from. -/
theorem Section.lookup_eq_value? {doc : Document} {s : Section} (h : doc.fields? = some s.fields)
    (key : Bytes) : s.lookup key = doc.value? key := by
  have hfind : doc.entries.reverse.find? (fun entry => entry.1.isKey key) =
      (s.fields.reverse.find? fun field => field.1 = key).map fun field =>
        (Document.text field.1, field.2) := by
    rw [entries_of_fields? h, ← List.map_reverse, List.find?_map]
    rfl
  rw [lookup, get?_eq_find?, value?, hfind]
  cases s.fields.reverse.find? fun field => field.1 = key with
  | none => rfl
  | some field =>
    obtain ⟨name, value⟩ := field
    cases value <;> rfl

/-! ## Checks -/

/-- What a field may have to be. -/
inductive FieldKind where
  | object
  | text
  | bool
  | natural
  | texts
  | strategy
  deriving Repr, DecidableEq

namespace FieldKind

/-- Whether a value is of a kind. -/
def accepts : FieldKind → Document → Prop
  | object, value => value.isObject
  | text, value => value.isText
  | bool, .bool _ => True
  | natural, value => ∃ n, value.Gives n
  | texts, .list items => items.all isText
  | strategy, value => value.isKey (bytes "clone") || value.isKey (bytes "tarball")
  | _, _ => False

/-- How a kind is called. -/
def expected : FieldKind → String
  | object => "an object"
  | text => "a string"
  | bool => "a bool"
  | natural => "an int"
  | texts => "a list of strings"
  | strategy => "\"clone\" or \"tarball\""

end FieldKind

/-- What is asked of a place of a document. -/
structure FieldCheck where
  place : List String
  kind : FieldKind
  required : Bool

/-- The name of a place: its keys with dots between them. -/
def placeName (place : List String) : Bytes := Bytes.join [46] (place.map bytes)

namespace FieldCheck

/-- The name of the place that is checked. -/
def name (check : FieldCheck) : Bytes :=
  if check.place = [] then bytes "payload" else placeName check.place

open Classical in
/-- Why a check fails, if it does. -/
noncomputable def fault? (check : FieldCheck) (doc : Document) : Option FieldFault :=
  match doc.at? check.place with
  | none => if check.required then some (.missing check.name) else none
  | some value =>
    if check.kind.accepts value then none
    else some (.wrongKind check.name (bytes check.kind.expected))

end FieldCheck

/-- The fault of the first check that fails. -/
noncomputable def firstFault? (doc : Document) (checks : List FieldCheck) : Option FieldFault :=
  checks.findSome? fun check => check.fault? doc

/-- What is asked of a revision. -/
def Revision.checks : List FieldCheck :=
  [⟨["job", "branch"], .text, true⟩,
    ⟨["job", "commit"], .text, true⟩,
    ⟨["job", "ref"], .text, false⟩,
    ⟨["job", "pull_request"], .bool, true⟩]

/-- What is asked of a repository. -/
def Repository.checks : List FieldCheck :=
  [⟨["repository", "slug"], .text, true⟩,
    ⟨["repository", "source_url"], .text, true⟩]

/-- What is asked of the settings of a checkout. -/
def GitConfig.checks : List FieldCheck :=
  [⟨["config", "git", "depth"], .natural, false⟩,
    ⟨["config", "git", "submodules"], .bool, false⟩,
    ⟨["config", "git", "submodules_depth"], .natural, false⟩,
    ⟨["config", "git", "strategy"], .text, false⟩,
    ⟨["config", "git", "strategy"], .strategy, false⟩]

/-- What is asked of the settings of a build. -/
def Config.checks : List FieldCheck :=
  [⟨["config", "language"], .text, false⟩,
    ⟨["config", "git"], .object, false⟩] ++ GitConfig.checks ++
  [⟨["config", "services"], .texts, false⟩]

/-- What is asked of the document of a job, in order. -/
def Job.checks : List FieldCheck :=
  [⟨[], .object, true⟩,
    ⟨["job"], .object, true⟩] ++ Revision.checks ++
  [⟨["repository"], .object, true⟩] ++ Repository.checks ++
  [⟨["config"], .object, true⟩] ++ Config.checks ++
  [⟨["paranoid"], .bool, false⟩,
    ⟨["skip_resolv_updates"], .bool, false⟩,
    ⟨["skip_etc_hosts_fix"], .bool, false⟩]

/-! ## Readers -/

variable {α β : Type} {doc : Document} {checks more : List FieldCheck}

/-- A reader that reports the first fault of some checks, and otherwise gives something with a property. -/
inductive Follows (doc : Document) (checks : List FieldCheck) (result : Except FieldFault α)
    (Holds : α → Prop) : Prop where
  | failed (fault : FieldFault) (hfirst : firstFault? doc checks = some fault) (h : result = .error fault)
  | passed (a : α) (hnone : firstFault? doc checks = none) (h : result = .ok a) (holds : Holds a)

namespace Follows

variable {x : Except FieldFault α} {P : α → Prop} {Q : β → Prop}

/-- **Readers one after the other** report the first fault of the checks of both. -/
theorem bind {f : α → Except FieldFault β} (hx : Follows doc checks x P)
    (hf : ∀ a, P a → Follows doc more (f a) Q) : Follows doc (checks ++ more) (x >>= f) Q := by
  have happend : firstFault? doc (checks ++ more) = (firstFault? doc checks).or (firstFault? doc more) :=
    List.findSome?_append
  cases hx with
  | failed fault hfirst h =>
    -- the second reader does not run, and its checks come later
    rw [h]
    exact .failed fault (by rw [happend, hfirst]; rfl) rfl
  | passed a hnone h holds =>
    rw [hnone, Option.none_or] at happend
    rw [h]
    cases hf a holds with
    | failed fault hfirst h' => exact .failed fault (happend.trans hfirst) h'
    | passed b hnone' h' holds' => exact .passed b (happend.trans hnone') h' holds'

theorem imp {P' : α → Prop} (hx : Follows doc checks x P) (h : ∀ a, P a → P' a) :
    Follows doc checks x P' := by
  cases hx with
  | failed fault hfirst hresult => exact .failed fault hfirst hresult
  | passed a hnone hresult holds => exact .passed a hnone hresult (h a holds)

theorem map {f : α → β} (hx : Follows doc checks x P) (hf : ∀ a, P a → Q (f a)) :
    Follows doc checks (x >>= fun a => pure (f a)) Q := by
  have hpure : ∀ a, P a → Follows doc [] (pure (f a) : Except FieldFault β) Q :=
    fun a ha => .passed (f a) rfl rfl (hf a ha)
  have h := hx.bind hpure
  rwa [List.append_nil] at h

end Follows

/-- The fields of an object at a place of a document, or no fields where nothing is. -/
structure Section.At (s : Section) (doc : Document) (place : List String) : Prop where
  dotted : ∀ key : String, s.dotted (bytes key) = placeName (place ++ [key])
  lookup : ∀ key : String, s.lookup (bytes key) = doc.at? (place ++ [key])

/-- What is shown by what was found, or a fixed value where nothing was. -/
def FoundOr (found? : Option Document) (Shows : Document → α → Prop) (default a : α) : Prop :=
  match found? with
  | some value => Shows value a
  | none => a = default

namespace Section

variable {s : Section} {place : List String} {key expected : String} {kind : FieldKind}
  {read : Document → Option α}

/-- A kind whose values a function reads. -/
structure ReadBy (kind : FieldKind) (expected : String) (read : Document → Option α) : Prop where
  accepts : ∀ value, kind.accepts value ↔ (read value).isSome = true
  called : kind.expected = expected

/-- The check of a field of an object, told by the fields. -/
theorem firstFault?_field (hs : s.At doc place) (hkind : ReadBy kind expected read) (key : String)
    (required : Bool) : firstFault? doc [⟨place ++ [key], kind, required⟩] =
      match doc.at? (place ++ [key]) with
      | none => if required then some (.missing (s.dotted (bytes key))) else none
      | some value =>
        if (read value).isSome then none
        else some (.wrongKind (s.dotted (bytes key)) (bytes expected)) := by
  have hplace : place ++ [key] ≠ [] := List.append_ne_nil_of_right_ne_nil _ (List.cons_ne_nil _ _)
  have hname : FieldCheck.name ⟨place ++ [key], kind, required⟩ = s.dotted (bytes key) := by
    rw [hs.dotted, FieldCheck.name, if_neg hplace]
  rw [firstFault?, List.findSome?_singleton, FieldCheck.fault?, hname]
  simp only [hkind.accepts, hkind.called]

/-- **The three ends of a look-up**, next to what the check of the field says: nothing is there, or what is
there can be read, or it cannot. -/
theorem optional_cases (hs : s.At doc place) (hkind : ReadBy kind expected read) (key : String)
    (required : Bool) :
    (doc.at? (place ++ [key]) = none ∧ s.optional key expected read = .ok none ∧
      firstFault? doc [⟨place ++ [key], kind, required⟩] =
        if required then some (.missing (s.dotted (bytes key))) else none) ∨
    (∃ value a, doc.at? (place ++ [key]) = some value ∧ read value = some a ∧
      s.optional key expected read = .ok (some a) ∧
      firstFault? doc [⟨place ++ [key], kind, required⟩] = none) ∨
    ∃ fault, s.optional key expected read = .error fault ∧
      firstFault? doc [⟨place ++ [key], kind, required⟩] = some fault := by
  rw [firstFault?_field hs hkind key required, optional, hs.lookup]
  cases doc.at? (place ++ [key]) with
  | none => exact .inl ⟨rfl, rfl, rfl⟩
  | some value =>
    dsimp only
    cases hread : read value with
    | some a => exact .inr (.inl ⟨value, a, rfl, hread, rfl, rfl⟩)
    | none => exact .inr (.inr ⟨_, rfl, rfl⟩)

/-- A field that may be missing: what is read is what stands at its place. -/
theorem follows_optional (hs : s.At doc place) (hkind : ReadBy kind expected read) (key : String) :
    Follows doc [⟨place ++ [key], kind, false⟩] (s.optional key expected read)
      fun a => (doc.at? (place ++ [key])).map read = a.map some := by
  rcases optional_cases hs hkind key false with
    ⟨hfound, h, hfirst⟩ | ⟨value, a, hfound, hread, h, hfirst⟩ | ⟨fault, h, hfirst⟩
  · exact .passed none hfirst h (by rw [hfound]; rfl)
  · exact .passed (some a) hfirst h (by rw [hfound, Option.map_some, hread]; rfl)
  · exact .failed fault hfirst h

/-- A field that has to be there. -/
theorem follows_required (hs : s.At doc place) (hkind : ReadBy kind expected read) (key : String) :
    Follows doc [⟨place ++ [key], kind, true⟩] (s.required key expected read)
      fun a => (doc.at? (place ++ [key])).map read = some (some a) := by
  rcases optional_cases hs hkind key true with
    ⟨hfound, h, hfirst⟩ | ⟨value, a, hfound, hread, h, hfirst⟩ | ⟨fault, h, hfirst⟩
  · exact .failed _ hfirst (by rw [required, h]; rfl)
  · exact .passed a hfirst (by rw [required, h]; rfl) (by rw [hfound, Option.map_some, hread])
  · exact .failed fault hfirst (by rw [required, h]; rfl)

/-! ### Kinds of fields -/

theorem readBy_object : ReadBy .object "an object" Document.fields? := by
  refine ⟨fun value => ?_, rfl⟩
  rw [isSome_fields?]
  rfl

theorem readBy_text : ReadBy .text "a string" readText := by
  refine ⟨fun value => ?_, rfl⟩
  cases value <;> exact Iff.rfl

theorem readBy_bool : ReadBy .bool "a bool" readBool := by
  refine ⟨fun value => ?_, rfl⟩
  cases value with
  | bool own => exact iff_of_true trivial rfl
  | _ => exact iff_of_false id Bool.false_ne_true

theorem readBy_natural : ReadBy .natural "an int" Document.toUInt? := by
  refine ⟨fun value => ?_, rfl⟩
  rw [Option.isSome_iff_exists]
  exact exists_congr fun n => gives_iff

theorem isSome_texts? (items : List Document) : (Document.texts? items).isSome = items.all isText := by
  induction items with
  | nil => rfl
  | cons item rest ih =>
    cases item with
    | text value => rw [Document.texts?, Option.isSome_map, ih, List.all_cons, isText, Bool.true_and]
    | _ => rfl

theorem readBy_texts : ReadBy .texts "a list of strings" readTexts := by
  refine ⟨fun value => ?_, rfl⟩
  cases value with
  | list items =>
    show items.all isText = true ↔ (Document.texts? items).isSome = true
    rw [isSome_texts?]
  | _ => exact iff_of_false id Bool.false_ne_true

theorem readBy_strategy : ReadBy .strategy "\"clone\" or \"tarball\""
    fun value => (readText value).bind readStrategy := by
  refine ⟨fun value => ?_, rfl⟩
  cases value with
  | text own =>
    show (decide (own = GitConfig.clone) || decide (own = GitConfig.tarball)) = true ↔
      (readStrategy own).isSome = true
    unfold readStrategy
    split
    · next h => exact iff_of_true h rfl
    · next h => exact iff_of_false h Bool.false_ne_true
  | _ => exact Iff.rfl

theorem eq_of_readText {value : Document} {a : Bytes} (h : readText value = some a) :
    value = .text a := by
  cases value with
  | text own => cases h; rfl
  | _ => cases h

theorem eq_of_readBool {value : Document} {a : Bool} (h : readBool value = some a) :
    value = .bool a := by
  cases value with
  | bool own => cases h; rfl
  | _ => cases h

theorem eq_of_readStrategy {value strategy : Bytes} (h : readStrategy value = some strategy) :
    value = strategy := by
  unfold readStrategy at h
  split at h
  · exact Option.some.inj h
  · cases h

theorem eq_of_texts? {items : List Document} {texts : List Bytes} (h : Document.texts? items = some texts) :
    items = texts.map .text := by
  induction items generalizing texts with
  | nil => cases h; rfl
  | cons item rest ih =>
    cases item with
    | text value =>
      obtain ⟨others, hothers, rfl⟩ := Option.map_eq_some_iff.1 h
      rw [List.map_cons, ← ih hothers]
    | _ => cases h

theorem eq_of_readTexts {value : Document} {a : List Bytes} (h : readTexts value = some a) :
    value = .list (a.map .text) := by
  cases value with
  | list items => rw [eq_of_texts? h]
  | _ => cases h

/-- Either nothing was found and nothing read, or what was found was read. -/
theorem read_cases {found? : Option Document} {a? : Option α} (h : found?.map read = a?.map some) :
    found? = none ∧ a? = none ∨
      ∃ value a, found? = some value ∧ a? = some a ∧ read value = some a := by
  cases found? with
  | none =>
    cases a? with
    | none => exact .inl ⟨rfl, rfl⟩
    | some a => cases h
  | some value =>
    cases a? with
    | none => cases h
    | some a => exact .inr ⟨value, a, rfl, rfl, Option.some.inj h⟩

/-- What was found is what was read, if only one value is read so. -/
theorem found_eq {found? : Option Document} {a? : Option α} {write : α → Document}
    (hwrite : ∀ {value a}, read value = some a → value = write a) (h : found?.map read = a?.map some) :
    found? = a?.map write := by
  obtain ⟨rfl, rfl⟩ | ⟨value, a, rfl, rfl, hread⟩ := read_cases h
  · rfl
  · exact congrArg some (hwrite hread)

variable (hs : s.At doc place) (key : String)
include hs

theorem follows_text : Follows doc [⟨place ++ [key], .text, true⟩] (s.text key)
    fun a => doc.at? (place ++ [key]) = some (.text a) :=
  (follows_required hs readBy_text key).imp fun a h =>
    (found_eq eq_of_readText h : _ = (some a).map Document.text)

theorem follows_text? : Follows doc [⟨place ++ [key], .text, false⟩] (s.text? key)
    fun a? => doc.at? (place ++ [key]) = a?.map .text :=
  (follows_optional hs readBy_text key).imp fun _ h => found_eq eq_of_readText h

theorem follows_bool : Follows doc [⟨place ++ [key], .bool, true⟩] (s.bool key)
    fun a => doc.at? (place ++ [key]) = some (.bool a) :=
  (follows_required hs readBy_bool key).imp fun a h =>
    (found_eq eq_of_readBool h : _ = (some a).map Document.bool)

theorem follows_bool? : Follows doc [⟨place ++ [key], .bool, false⟩] (s.bool? key)
    fun a? => doc.at? (place ++ [key]) = a?.map .bool :=
  (follows_optional hs readBy_bool key).imp fun _ h => found_eq eq_of_readBool h

theorem follows_natural? : Follows doc [⟨place ++ [key], .natural, false⟩] (s.natural? key)
    fun n? => FoundOr (doc.at? (place ++ [key]))
      (fun value n? => ∃ n, n? = some n ∧ value.Gives n) none n? := by
  refine (follows_optional hs readBy_natural key).imp fun n? h => ?_
  obtain ⟨hfound, rfl⟩ | ⟨value, n, hfound, rfl, hread⟩ := read_cases h
  · rw [hfound]; rfl
  · rw [hfound]; exact ⟨n, rfl, gives_iff.2 hread⟩

theorem follows_texts? : Follows doc [⟨place ++ [key], .texts, false⟩] (s.texts? key)
    fun a? => doc.at? (place ++ [key]) = a?.map fun texts => .list (texts.map .text) :=
  (follows_optional hs readBy_texts key).imp fun _ h => found_eq eq_of_readTexts h

/-- The strategy is checked twice, as a text and as one of two. -/
theorem follows_strategy? :
    Follows doc [⟨place ++ [key], .text, false⟩, ⟨place ++ [key], .strategy, false⟩] (s.strategy? key)
      fun a? => doc.at? (place ++ [key]) = a?.map .text := by
  refine (follows_text? hs key).bind fun a? hfound => ?_
  have hfirst := firstFault?_field hs readBy_strategy key false
  rw [hfound] at hfirst
  cases a? with
  | none => exact .passed none hfirst rfl hfound
  | some value =>
    -- it is a text by now, so what is left to ask is which one
    have hbind : (readText (Document.text value)).bind readStrategy = readStrategy value := rfl
    rw [Option.map_some] at hfirst
    dsimp only at hfirst ⊢
    rw [hbind] at hfirst
    cases hread : readStrategy value with
    | some strategy =>
      rw [hread] at hfirst
      exact .passed (some strategy) hfirst rfl (eq_of_readStrategy hread ▸ hfound)
    | none =>
      rw [hread] at hfirst
      exact .failed _ hfirst rfl

omit hs

theorem placeName_concat (place : List String) (key : String) :
    placeName (place ++ [key]) = (if place = [] then [] else placeName place ++ [46]) ++ bytes key := by
  rw [placeName, List.map_append, List.map_singleton, Bytes.join_concat]
  simp only [List.map_eq_nil_iff, placeName]

variable {key} (hs : s.At doc place) (hkey : bytes key ≠ [])
include hs hkey

/-- Fields at the place of a field. -/
theorem at_below {fields : List (Bytes × Document)}
    (h : ∀ next : Bytes, lookup ⟨s.dotted (bytes key), fields⟩ next =
      (doc.at? (place ++ [key])).bind fun value => value.value? next) :
    At ⟨s.dotted (bytes key), fields⟩ doc (place ++ [key]) := by
  have hplace : place ++ [key] ≠ [] := List.append_ne_nil_of_right_ne_nil _ (List.cons_ne_nil _ _)
  have hname : placeName (place ++ [key]) ≠ [] := by
    rw [placeName_concat]
    exact List.append_ne_nil_of_right_ne_nil _ hkey
  constructor
  · -- the name of the object is not empty, so a dot comes behind it
    intro next
    rw [placeName_concat, if_neg hplace, dotted, hs.dotted, if_neg hname]
    rfl
  · intro next
    rw [h, at?_append doc (place ++ [key]) [next]]
    simp only [at?_key]

/-- An object that has to be there. -/
theorem follows_requiredObject : Follows doc [⟨place ++ [key], .object, true⟩] (s.requiredObject key)
    fun t => t.At doc (place ++ [key]) := by
  refine (follows_required hs readBy_object key).map fun fields h => at_below hs hkey fun next => ?_
  obtain ⟨value, hfound, hfields⟩ := Option.map_eq_some_iff.1 h
  rw [hfound, Option.bind_some]
  exact lookup_eq_value? hfields next

/-- An object that may be missing. If it is, nothing is found below its place either. -/
theorem follows_optionalObject : Follows doc [⟨place ++ [key], .object, false⟩] (s.optionalObject key)
    fun t => t.At doc (place ++ [key]) := by
  refine (follows_optional hs readBy_object key).map fun fields? h => at_below hs hkey fun next => ?_
  obtain ⟨hfound, rfl⟩ | ⟨value, fields, hfound, rfl, hfields⟩ := read_cases h
  · rw [hfound]; rfl
  · rw [hfound, Option.bind_some]
    exact lookup_eq_value? hfields next

end Section

/-! ## Jobs -/

/-- The revision that a document describes. -/
structure Revision.DescribedBy (revision : Revision) (doc : Document) : Prop where
  branch : doc.at? ["job", "branch"] = some (.text revision.branch)
  commit : doc.at? ["job", "commit"] = some (.text revision.commit)
  ref : doc.at? ["job", "ref"] = revision.ref?.map .text
  pullRequest : doc.at? ["job", "pull_request"] = some (.bool revision.pullRequest)

/-- The repository that a document describes. -/
structure Repository.DescribedBy (repository : Repository) (doc : Document) : Prop where
  slug : doc.at? ["repository", "slug"] = some (.text repository.slug)
  sourceUrl : doc.at? ["repository", "source_url"] = some (.text repository.sourceUrl)

/-- The settings of a checkout that a document describes. -/
structure GitConfig.DescribedBy (git : GitConfig) (doc : Document) : Prop where
  depth : FoundOr (doc.at? ["config", "git", "depth"]) Document.Gives 50 git.depth
  submodules : FoundOr (doc.at? ["config", "git", "submodules"]) (fun value b => value = .bool b) true
    git.submodules
  submodulesDepth : FoundOr (doc.at? ["config", "git", "submodules_depth"])
    (fun value n? => ∃ n, n? = some n ∧ value.Gives n) none git.submodulesDepth?
  strategy : FoundOr (doc.at? ["config", "git", "strategy"]) (fun value a => value = .text a)
    (bytes "clone") git.strategy

/-- The settings of a build that a document describes. -/
structure Config.DescribedBy (config : Config) (doc : Document) : Prop where
  language : FoundOr (doc.at? ["config", "language"]) (fun value a => value = .text a) [] config.language
  git : config.git.DescribedBy doc
  services : FoundOr (doc.at? ["config", "services"])
    (fun value texts => value = .list (texts.map .text)) [] config.services

/-- The job that a document describes. A document says which fixes to skip, and both are skipped unless
it says otherwise. -/
structure Job.DescribedBy (job : Job) (doc : Document) : Prop where
  revision : job.revision.DescribedBy doc
  repository : job.repository.DescribedBy doc
  config : job.config.DescribedBy doc
  paranoid : FoundOr (doc.at? ["paranoid"]) (fun value b => value = .bool b) false job.paranoid
  fixResolvConf : FoundOr (doc.at? ["skip_resolv_updates"]) (fun value b => value = .bool (!b)) false
    job.fixResolvConf
  fixEtcHosts : FoundOr (doc.at? ["skip_etc_hosts_fix"]) (fun value b => value = .bool (!b)) false
    job.fixEtcHosts

theorem Revision.follows_ofSection {s : Section} (hs : s.At doc ["job"]) :
    Follows doc Revision.checks (Revision.ofSection s) (·.DescribedBy doc) := by
  refine (Section.follows_text hs "branch").bind fun branch hbranch => ?_
  refine (Section.follows_text hs "commit").bind fun commit hcommit => ?_
  refine (Section.follows_text? hs "ref").bind fun ref? href => ?_
  exact (Section.follows_bool hs "pull_request").map fun _ hrequest =>
    ⟨hbranch, hcommit, href, hrequest⟩

theorem Repository.follows_ofSection {s : Section} (hs : s.At doc ["repository"]) :
    Follows doc Repository.checks (Repository.ofSection s) (·.DescribedBy doc) := by
  refine (Section.follows_text hs "slug").bind fun slug hslug => ?_
  exact (Section.follows_text hs "source_url").map fun _ hurl => ⟨hslug, hurl⟩

/-- A field that may be missing, with its fixed value. -/
theorem foundOr_getD {found? : Option Document} {write : α → Document} {a? : Option α} {default : α}
    (h : found? = a?.map write) :
    FoundOr found? (fun value a => value = write a) default (a?.getD default) := by
  subst h
  cases a? <;> exact rfl

theorem foundOr_of_some {found? : Option Document} {Shows : Document → α → Prop} {a? : Option α} {default : α}
    (h : FoundOr found? (fun value a? => ∃ a, a? = some a ∧ Shows value a) none a?) :
    FoundOr found? Shows default (a?.getD default) := by
  cases found? with
  | none =>
    obtain rfl : a? = none := h
    rfl
  | some value =>
    obtain ⟨a, rfl, ha⟩ := h
    exact ha

/-- A fix is applied if skipping it is denied. -/
theorem foundOr_not {found? : Option Document} {skip? : Option Bool} (h : found? = skip?.map .bool) :
    FoundOr found? (fun value b => value = .bool (!b)) false (!skip?.getD true) := by
  subst h
  cases skip? with
  | none => rfl
  | some skip => exact congrArg Document.bool (Bool.not_not skip).symm

theorem GitConfig.follows_ofSection {s : Section} (hs : s.At doc ["config", "git"]) :
    Follows doc GitConfig.checks (GitConfig.ofSection s) (·.DescribedBy doc) := by
  refine (Section.follows_natural? hs "depth").bind fun depth? hdepth => ?_
  refine (Section.follows_bool? hs "submodules").bind fun submodules? hsubmodules => ?_
  refine (Section.follows_natural? hs "submodules_depth").bind fun bound? hbound => ?_
  refine (Section.follows_strategy? hs "strategy").map fun strategy? hstrategy => ?_
  exact ⟨foundOr_of_some hdepth, foundOr_getD hsubmodules, hbound, foundOr_getD hstrategy⟩

theorem Config.follows_ofSection {s : Section} (hs : s.At doc ["config"]) :
    Follows doc Config.checks (Config.ofSection s) (·.DescribedBy doc) := by
  refine (Section.follows_text? hs "language").bind fun language? hlanguage => ?_
  refine (Section.follows_optionalObject hs (by decide)).bind fun git hgit => ?_
  refine (GitConfig.follows_ofSection hgit).bind fun git hgit => ?_
  exact (Section.follows_texts? hs "services").map fun services? hservices =>
    ⟨foundOr_getD hlanguage, hgit, foundOr_getD hservices⟩

theorem Job.follows_ofSection {s : Section} (hs : s.At doc []) :
    Follows doc Job.checks.tail (Job.ofSection s) (·.DescribedBy doc) := by
  refine (Section.follows_requiredObject hs (by decide)).bind fun revision hrevision => ?_
  refine (Revision.follows_ofSection hrevision).bind fun revision hrevision => ?_
  refine (Section.follows_requiredObject hs (by decide)).bind fun repository hrepository => ?_
  refine (Repository.follows_ofSection hrepository).bind fun repository hrepository => ?_
  refine (Section.follows_requiredObject hs (by decide)).bind fun config hconfig => ?_
  refine (Config.follows_ofSection hconfig).bind fun config hconfig => ?_
  refine (Section.follows_bool? hs "paranoid").bind fun paranoid? hparanoid => ?_
  refine (Section.follows_bool? hs "skip_resolv_updates").bind fun skipResolv? hresolv => ?_
  exact (Section.follows_bool? hs "skip_etc_hosts_fix").map fun skipHosts? hhosts =>
    ⟨hrevision, hrepository, hconfig, foundOr_getD hparanoid, foundOr_not hresolv, foundOr_not hhosts⟩

/-- The fields of a whole document. -/
theorem Section.at_whole {fields : List (Bytes × Document)} (h : doc.fields? = some fields) :
    At ⟨[], fields⟩ doc [] :=
  ⟨fun _ => rfl, fun key => (lookup_eq_value? h (bytes key)).trans (at?_key doc key).symm⟩

/-- **Reading a job** reports the first fault, or gives a job that the document describes. -/
theorem Job.follows_ofDocument (doc : Document) :
    Follows doc Job.checks (Job.ofDocument doc) (·.DescribedBy doc) := by
  have hwhole : firstFault? doc [⟨[], .object, true⟩] =
      if doc.fields?.isSome then none else some (.wrongKind (bytes "payload") (bytes "an object")) := by
    rw [firstFault?, List.findSome?_singleton, FieldCheck.fault?]
    simp only [Document.at?, Section.readBy_object.accepts]
    rfl
  -- a document without fields is a first reader that fails
  unfold Job.ofDocument
  cases hfields : doc.fields? with
  | none =>
    rw [hfields] at hwhole
    have hfault : Follows doc [⟨[], .object, true⟩] (.error _ : Except FieldFault Section)
        fun s => s.At doc [] := .failed _ hwhole rfl
    exact hfault.bind fun s hs => Job.follows_ofSection hs
  | some fields =>
    rw [hfields] at hwhole
    have hfound : Follows doc [⟨[], .object, true⟩] (.ok ⟨[], fields⟩ : Except FieldFault Section)
        fun s => s.At doc [] := .passed _ hwhole rfl (Section.at_whole hfields)
    exact hfound.bind fun s hs => Job.follows_ofSection hs

theorem FoundOr.unique {found? : Option Document} {Shows : Document → α → Prop} {default a b : α}
    (ha : FoundOr found? Shows default a) (hb : FoundOr found? Shows default b)
    (hshows : ∀ value, Shows value a → Shows value b → a = b) : a = b := by
  cases found? with
  | none => exact ha.trans hb.symm
  | some value => exact hshows value ha hb

theorem Revision.DescribedBy.unique {r r' : Revision} (h : r.DescribedBy doc) (h' : r'.DescribedBy doc) :
    r = r' := by
  have hbranch := h.branch.symm.trans h'.branch
  have hcommit := h.commit.symm.trans h'.commit
  have href := h.ref.symm.trans h'.ref
  have hrequest := h.pullRequest.symm.trans h'.pullRequest
  rw [Option.map_inj_right fun _ _ => Document.text.inj] at href
  cases r; cases r'
  simp_all

theorem Repository.DescribedBy.unique {r r' : Repository} (h : r.DescribedBy doc)
    (h' : r'.DescribedBy doc) : r = r' := by
  have hslug := h.slug.symm.trans h'.slug
  have hurl := h.sourceUrl.symm.trans h'.sourceUrl
  cases r; cases r'
  simp_all

theorem GitConfig.DescribedBy.unique {git git' : GitConfig} (h : git.DescribedBy doc)
    (h' : git'.DescribedBy doc) : git = git' := by
  have hdepth := h.depth.unique h'.depth fun _ hn hm => hn.unique hm
  have hsubmodules := h.submodules.unique h'.submodules fun _ ha hb =>
    Document.bool.inj (ha.symm.trans hb)
  have hbound := h.submodulesDepth.unique h'.submodulesDepth fun _ ⟨_, hn, hgives⟩ ⟨_, hm, hgives'⟩ => by
    rw [hn, hm, hgives.unique hgives']
  have hstrategy := h.strategy.unique h'.strategy fun _ ha hb => Document.text.inj (ha.symm.trans hb)
  cases git; cases git'
  simp_all

theorem Config.DescribedBy.unique {config config' : Config} (h : config.DescribedBy doc)
    (h' : config'.DescribedBy doc) : config = config' := by
  have hlanguage := h.language.unique h'.language fun _ ha hb => Document.text.inj (ha.symm.trans hb)
  have hgit := h.git.unique h'.git
  have hservices := h.services.unique h'.services fun _ ha hb =>
    (List.map_inj_right fun _ _ => Document.text.inj).1 (Document.list.inj (ha.symm.trans hb))
  cases config; cases config'
  simp_all

/-- **A document describes one job at most.** -/
theorem Job.DescribedBy.unique {job job' : Job} (h : job.DescribedBy doc) (h' : job'.DescribedBy doc) :
    job = job' := by
  have hrevision := h.revision.unique h'.revision
  have hrepository := h.repository.unique h'.repository
  have hconfig := h.config.unique h'.config
  have hparanoid := h.paranoid.unique h'.paranoid fun _ ha hb => Document.bool.inj (ha.symm.trans hb)
  have hresolv := h.fixResolvConf.unique h'.fixResolvConf fun _ ha hb =>
    Bool.not_inj (Document.bool.inj (ha.symm.trans hb))
  have hhosts := h.fixEtcHosts.unique h'.fixEtcHosts fun _ ha hb =>
    Bool.not_inj (Document.bool.inj (ha.symm.trans hb))
  cases job; cases job'
  simp_all

/-- A job is read if there is no fault and it is the one that is described. -/
theorem Job.ofDocument_eq_ok_iff {job : Job} : Job.ofDocument doc = .ok job ↔
    firstFault? doc Job.checks = none ∧ job.DescribedBy doc := by
  cases Job.follows_ofDocument doc with
  | failed fault hfirst h => simp [h, hfirst]
  | passed own hnone h holds =>
    rw [h]
    constructor
    · rintro ⟨⟩
      exact ⟨hnone, holds⟩
    · rintro ⟨_, hjob⟩
      rw [holds.unique hjob]

end BuildScript
