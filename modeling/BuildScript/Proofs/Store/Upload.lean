import BuildScript.Store.Upload
import Mathlib.Data.List.Basic

/-!
# What an upload leaves in a bucket

An upload reads the record of a script before it puts anything, but looks for the script itself only when
the record has been taken.

* `record_eq_ok_iff`: a record is given exactly if its file can be read and holds one.
* `UploadEnds`, `upload_ends`: **the ways in which an upload can end.**
* `local_failure_publishes`: **an upload that fails in the store has put nothing, or the record alone.**
* `record_published_alone`: the record is put although there is no script.
-/

namespace BuildScript.Store

variable {store : Store} {bucket : Bucket} {id : Bytes}

/-- The contents of the file with a name. -/
def contents (store : Store) (name : Bytes) : Except Disk.Fault Bytes := store.disk.read (store.pathOf name)

/-- The object of a record. -/
def recordObject (bucket : Bucket) (id text : Bytes) : Put :=
  Put.ofBody bucket.name id (recordName id) (bytes "application/json") text

/-- The object of a script. -/
def scriptObject (bucket : Bucket) (id text : Bytes) : Put :=
  Put.ofBody bucket.name id (scriptName id) (bytes "text/x-shellscript") text

theorem contents_eq_ok_iff {name text : Bytes} :
    store.contents name = .ok text ↔ store.disk.openAt (store.pathOf name) = .ok (.file text) := by
  unfold contents Disk.read
  cases store.disk.openAt (store.pathOf name) with
  | error fault => simp [bind, Except.bind]
  | ok entry => cases entry <;> simp [bind, Except.bind, pure, Except.pure, throw, throwThe, MonadExceptOf.throw]

/-- **A record is given exactly if its file can be read and holds one.** -/
theorem record_eq_ok_iff {record : Record} :
    store.record id = .ok record ↔
      ∃ text, store.contents (recordName id) = .ok text ∧ Record.read text = .ok record := by
  simp only [contents_eq_ok_iff]
  unfold Store.record
  cases store.disk.openAt (store.pathOf (recordName id)) with
  | error fault => simp
  | ok entry =>
    cases entry with
    | dir folder => simp
    | file text => cases h : Record.read text <;> simp [h]

/-- The ways in which an upload can end. -/
inductive UploadEnds (store : Store) (bucket : Bucket) (id : Bytes) : Upload → Prop where
  | noRecord {fault : Fault} (h : store.record id = .error fault) :
      UploadEnds store bucket id ⟨[], some fault⟩
  | recordRefused {record : Record} {reason : Bytes} (hrecord : store.record id = .ok record)
      (hrefused : bucket.refusal? 0 = some reason) :
      UploadEnds store bucket id ⟨[], some (.refused reason)⟩
  | noScript {record : Record} {text : Bytes} {cause : Disk.Fault}
      (hrecord : store.record id = .ok record) (htext : store.contents (recordName id) = .ok text)
      (htaken : bucket.refusal? 0 = none) (hscript : store.contents (scriptName id) = .error cause) :
      UploadEnds store bucket id ⟨[recordObject bucket id text], some (.file cause)⟩
  | scriptRefused {record : Record} {text script reason : Bytes}
      (hrecord : store.record id = .ok record) (htext : store.contents (recordName id) = .ok text)
      (htaken : bucket.refusal? 0 = none) (hscript : store.contents (scriptName id) = .ok script)
      (hrefused : bucket.refusal? 1 = some reason) :
      UploadEnds store bucket id ⟨[recordObject bucket id text], some (.refused reason)⟩
  | both {record : Record} {text script : Bytes}
      (hrecord : store.record id = .ok record) (htext : store.contents (recordName id) = .ok text)
      (htaken : bucket.refusal? 0 = none) (hscript : store.contents (scriptName id) = .ok script)
      (htaken' : bucket.refusal? 1 = none) :
      UploadEnds store bucket id ⟨[recordObject bucket id text, scriptObject bucket id script], none⟩

/-- A file is offered to a bucket once it has been read. -/
theorem offer_eq (store : Store) (bucket : Bucket) (taken : Nat) (id name contentType : Bytes) :
    store.offer bucket taken id name contentType =
      match store.contents name, bucket.refusal? taken with
      | .error cause, _ => .error (.file cause)
      | .ok _, some reason => .error (.refused reason)
      | .ok text, none => .ok (Put.ofBody bucket.name id name contentType text) := by
  unfold offer contents
  cases store.disk.read (store.pathOf name) with
  | error cause => rfl
  | ok text => cases bucket.refusal? taken <;> rfl

/-- **An upload ends in one of these ways.** -/
theorem upload_ends (store : Store) (bucket : Bucket) (id : Bytes) :
    UploadEnds store bucket id (store.upload bucket id) := by
  unfold upload
  cases hrecord : store.record id with
  | error fault => exact .noRecord hrecord
  | ok record =>
    obtain ⟨text, htext, -⟩ := record_eq_ok_iff.1 hrecord
    simp only [offer_eq, htext]
    cases htaken : bucket.refusal? 0 with
    | some reason => exact .recordRefused hrecord htaken
    | none =>
      cases hscript : store.contents (scriptName id) with
      | error cause => exact .noScript hrecord htext htaken hscript
      | ok script =>
        cases htaken' : bucket.refusal? 1 with
        | some reason => exact .scriptRefused hrecord htext htaken hscript htaken'
        | none => exact .both hrecord htext htaken hscript htaken'

/-- A failure that is not the bucket's comes before the record is put, because there is no good record, or
after it, because there is no script. -/
theorem puts_of_local_fault {fault : Fault} (hfault : (store.upload bucket id).fault? = some fault)
    (hlocal : ∀ reason, fault ≠ .refused reason) :
    (store.record id = .error fault ∧ (store.upload bucket id).puts = []) ∨
    ∃ record text cause, store.record id = .ok record ∧ store.contents (recordName id) = .ok text ∧
      store.contents (scriptName id) = .error cause ∧ fault = .file cause ∧
      (store.upload bucket id).puts = [recordObject bucket id text] := by
  have hends := upload_ends store bucket id
  generalize store.upload bucket id = upload at hends hfault ⊢
  cases hends with
  | noRecord hrecord =>
    cases hfault
    exact .inl ⟨hrecord, rfl⟩
  | recordRefused hrecord hrefused =>
    cases hfault
    exact absurd rfl (hlocal _)
  | noScript hrecord htext htaken hscript =>
    cases hfault
    exact .inr ⟨_, _, _, hrecord, htext, hscript, rfl, rfl⟩
  | scriptRefused hrecord htext htaken hscript hrefused =>
    cases hfault
    exact absurd rfl (hlocal _)
  | both => cases hfault

/-- The record is put before the script is looked for. -/
theorem upload_without_script {record : Record} {cause : Disk.Fault} (hrecord : store.record id = .ok record)
    (hscript : store.contents (scriptName id) = .error cause) (htaken : bucket.refusal? 0 = none) :
    ∃ text, store.contents (recordName id) = .ok text ∧
      store.upload bucket id = ⟨[recordObject bucket id text], some (.file cause)⟩ := by
  obtain ⟨text, htext, -⟩ := record_eq_ok_iff.1 hrecord
  refine ⟨text, htext, ?_⟩
  unfold upload
  simp only [hrecord, offer_eq, htext, htaken, hscript]
  rfl

/-- An upload that goes through has put both objects. -/
theorem puts_of_done (hdone : (store.upload bucket id).fault? = none) : ∃ text script,
    store.contents (recordName id) = .ok text ∧ store.contents (scriptName id) = .ok script ∧
      (store.upload bucket id).puts = [recordObject bucket id text, scriptObject bucket id script] := by
  have hends := upload_ends store bucket id
  generalize store.upload bucket id = upload at hends hdone ⊢
  cases hends with
  | both hrecord htext htaken hscript htaken' => exact ⟨_, _, htext, hscript, rfl⟩
  | _ => cases hdone

/-- **What an upload that fails has published.** Unless the bucket itself refuses an object, an upload that
fails has put nothing exactly if it is the record that cannot be read. Otherwise it is the script that
cannot be read, and the record has been put alone; this happens whenever the bucket takes the record. An
upload that goes through has put both. -/
theorem local_failure_publishes (store : Store) (bucket : Bucket) (id : Bytes) :
    (∀ fault, (store.upload bucket id).fault? = some fault → (∀ reason, fault ≠ .refused reason) →
      ((store.upload bucket id).puts = [] ↔ store.record id = .error fault) ∧
      ((store.upload bucket id).puts ≠ [] → ∃ record text cause,
        store.record id = .ok record ∧ store.contents (recordName id) = .ok text ∧
        store.contents (scriptName id) = .error cause ∧ fault = .file cause ∧
        (store.upload bucket id).puts = [recordObject bucket id text])) ∧
    (∀ record cause, store.record id = .ok record → store.contents (scriptName id) = .error cause →
      bucket.refusal? 0 = none → ∃ text, store.contents (recordName id) = .ok text ∧
        store.upload bucket id = ⟨[recordObject bucket id text], some (.file cause)⟩) ∧
    ((store.upload bucket id).fault? = none → ∃ text script,
      store.contents (recordName id) = .ok text ∧ store.contents (scriptName id) = .ok script ∧
      (store.upload bucket id).puts = [recordObject bucket id text, scriptObject bucket id script]) := by
  refine ⟨fun fault hfault hlocal => ?_, fun record cause => upload_without_script, puts_of_done⟩
  rcases puts_of_local_fault hfault hlocal with
    ⟨hrecord, hputs⟩ | ⟨record, text, cause, hrecord, htext, hscript, hcause, hputs⟩
  · exact ⟨iff_of_true hputs hrecord, fun hne => absurd hputs hne⟩
  · have hnone : store.record id ≠ .error fault := by
      intro hother
      rw [hrecord] at hother
      cases hother
    have hne : (store.upload bucket id).puts ≠ [] := by
      rw [hputs]
      exact List.cons_ne_nil _ _
    exact ⟨iff_of_false hne hnone, fun _ => ⟨record, text, cause, hrecord, htext, hscript, hcause, hputs⟩⟩

/-- A store with a record and no script. -/
def orphaned : Store := ⟨⟨[(bytes "x.info.json", .file (bytes "\x7b\x7d"))], []⟩, []⟩

/-- A bucket that takes everything. -/
def openBucket : Bucket := ⟨bytes "scripts", fun _ => none⟩

theorem orphaned_fault : (orphaned.upload openBucket (bytes "x")).fault? =
    some (.file ⟨bytes "open", bytes "x.sh", .missing⟩) := by decide +kernel

/-- Where there is no script the record is put alone, and where there is no record nothing is put. -/
theorem local_failure_publishes_orphan :
    orphaned.record (bytes "x") = .ok Record.blank ∧
    orphaned.upload openBucket (bytes "x") =
      ⟨[recordObject openBucket (bytes "x") (bytes "\x7b\x7d")],
        some (.file ⟨bytes "open", bytes "x.sh", .missing⟩)⟩ ∧
    (orphaned.upload openBucket (bytes "y")).fault? = some (.unknownId (bytes "y")) ∧
    (orphaned.upload openBucket (bytes "y")).puts = [] := by
  have hrecord : orphaned.record (bytes "x") = .ok Record.blank := by decide +kernel
  have hscript : orphaned.contents (scriptName (bytes "x")) =
      .error ⟨bytes "open", bytes "x.sh", .missing⟩ := by decide +kernel
  have htext : orphaned.contents (recordName (bytes "x")) = .ok (bytes "\x7b\x7d") := by decide +kernel
  have hunknown : (orphaned.upload openBucket (bytes "y")).fault? = some (.unknownId (bytes "y")) := by
    decide +kernel
  obtain ⟨text, hcontents, hupload⟩ :=
    (local_failure_publishes orphaned openBucket (bytes "x")).2.1 _ _ hrecord hscript rfl
  rw [htext] at hcontents
  cases hcontents
  refine ⟨hrecord, hupload, hunknown, ?_⟩
  refine (((local_failure_publishes orphaned openBucket (bytes "y")).1 _ hunknown fun reason h => ?_).1).2 ?_
  · cases h
  · decide +kernel

/-- A record is published without its script, although the bucket takes all that it is offered. -/
theorem record_published_alone :
    ¬ ∀ (store : Store) (bucket : Bucket) (id : Bytes) (fault : Fault),
      (store.upload bucket id).fault? = some fault → (∀ reason, fault ≠ .refused reason) →
        (store.upload bucket id).puts = [] := by
  intro h
  have hputs : (orphaned.upload openBucket (bytes "x")).puts ≠ [] := by decide +kernel
  refine hputs (h orphaned openBucket (bytes "x") _ orphaned_fault fun reason heq => ?_)
  cases heq

end BuildScript.Store
