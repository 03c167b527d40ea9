import BuildScript.Proofs.Compile.Success
import BuildScript.Proofs.Files.Disk
import BuildScript.Proofs.Json.PageText
import BuildScript.Proofs.Json.ReadBack
import BuildScript.Proofs.Text.Numerals
import BuildScript.Store.Ulid

/-!
# Records that survive the disk

The record of a script is written as an object of texts, and the same record is read from it if all its
texts are valid. Of a job that compiles they are, but for the commit, which compiling does not look at.

* `Record.read_render_iff`: **a record is read back exactly if its texts are valid.**
* `Ulid.mem_encode`, `Base58.mem_encode`: what ids and hashes are made of.
* `Store.keep_written`: a script that was kept has its record written last.
* `Store.keep_of_hasRoom`: **a script is kept where there is room** for it and its record.
* `saved_record_read_back`: the record that saving returns is the one that the store then gives.
-/

namespace BuildScript

open Utf8 (valid sanitize)

/-! ## Records as text -/

namespace Record

theorem field?_key (field : Field) : field? field.key = some field := by
  cases field <;> decide

theorem valid_key (field : Field) : valid field.key = true := by
  cases field <;> decide

/-- A record with stray bytes replaced. -/
def sanitized (record : Record) : Record where
  id := sanitize record.id
  slug := sanitize record.slug
  commit := sanitize record.commit
  language := sanitize record.language
  fingerprint := sanitize record.fingerprint
  jobHash := sanitize record.jobHash

/-- The fields of an object are taken over one after the other. -/
theorem fill?_texts (source : Field → Bytes) (fields : List Field) (record : Record) :
    fill? record (fields.map fun field => (field.key, .text (source field))) =
      some (fields.foldl (fun record field => record.set field (source field)) record) := by
  induction fields generalizing record with
  | nil => rfl
  | cons field rest ih =>
    simp only [List.map_cons, fill?, field?_key]
    exact ih _

/-- What is read from the text of a record. -/
theorem read_render (record : Record) : read record.render = .ok record.sanitized := by
  have hdocument : Json.document (Field.all.map fun field => (field.key, record.get field)) =
      Field.all.map fun field => (field.key, .text (sanitize (record.get field))) := by
    rw [Json.document, List.map_map]
    refine List.map_congr_left fun field _ => ?_
    rw [Function.comp_apply, Utf8.sanitize_of_valid (valid_key field)]
  have hread : Json.read record.render = .ok (.object _) := Json.read_fields (List.cons_ne_nil _ _)
  rw [hdocument] at hread
  simp only [read, hread, bind, Except.bind, ofDocument?, fill?_texts]
  rfl

theorem sanitized_eq_self_iff (record : Record) :
    record.sanitized = record ↔ ∀ field, sanitize (record.get field) = record.get field := by
  obtain ⟨id, slug, commit, language, fingerprint, jobHash⟩ := record
  rw [sanitized, Record.mk.injEq]
  constructor
  · rintro ⟨hid, hslug, hcommit, hlanguage, hfingerprint, hhash⟩ field
    cases field <;> assumption
  · intro h
    exact ⟨h .id, h .slug, h .commit, h .language, h .fingerprint, h .jobHash⟩

/-- **A record is read back exactly if its texts are valid.** -/
theorem read_render_iff (record : Record) :
    read record.render = .ok record ↔ ∀ field, valid (record.get field) = true := by
  rw [read_render, Except.ok.injEq, sanitized_eq_self_iff]
  simp only [Utf8.sanitize_eq_self_iff]

end Record

/-! ## What ids and hashes are made of -/

theorem getD_mem {digits : Bytes} {b : UInt8} (hb : b ∈ digits) (n : Nat) : digits.getD n b ∈ digits := by
  rw [List.getD_eq_getElem?_getD]
  cases h : digits[n]? with
  | none => exact hb
  | some d => exact List.mem_of_getElem? h

namespace Ulid

theorem mem_digits {b : UInt8} {width n : Nat} (h : b ∈ digits width n) : b ∈ alphabet := by
  induction width generalizing n with
  | zero => cases h
  | succ width ih =>
    rcases List.mem_append.1 h with h | h
    · exact ih h
    · rw [List.mem_singleton.1 h]
      exact getD_mem (by decide) _

theorem length_digits (width n : Nat) : (digits width n).length = width := by
  induction width generalizing n with
  | zero => rfl
  | succ width ih => rw [digits, List.length_append, ih, List.length_singleton]

theorem mem_encode {b : UInt8} {time random : Nat} (h : b ∈ encode time random) : b ∈ alphabet :=
  mem_digits h

theorem length_encode (time random : Nat) : (encode time random).length = 26 := length_digits 26 _

end Ulid

namespace Base58

theorem mem_digits {b : UInt8} {limit n : Nat} {tail : Bytes} (h : b ∈ digits limit n tail) :
    b ∈ alphabet ∨ b ∈ tail := by
  induction limit generalizing n tail with
  | zero => exact Or.inr h
  | succ limit ih =>
    rw [digits] at h
    split at h
    · exact Or.inr h
    · rcases ih h with h | h
      · exact Or.inl h
      · rcases List.mem_cons.1 h with rfl | h
        · exact Or.inl (getD_mem (by decide) _)
        · exact Or.inr h

theorem mem_encode {b : UInt8} {s : Bytes} (h : b ∈ encode s) : b ∈ alphabet := by
  rcases List.mem_append.1 h with h | h
  · rw [(List.mem_replicate.1 h).2]
    decide
  · rcases mem_digits h with h | h
    · exact h
    · cases h

end Base58

theorem Ulid.valid_encode (time random : Nat) : valid (encode time random) = true := by
  have hascii : alphabet.all (· < 0x80) = true := by decide
  refine Utf8.valid_of_ascii fun b hb => ?_
  exact of_decide_eq_true (List.all_eq_true.1 hascii b (mem_encode hb))

theorem Statement.valid_fingerprint (s : Statement) : valid s.fingerprint = true := by
  have hascii : Base58.alphabet.all (· < 0x80) = true := by decide
  refine Utf8.valid_of_ascii fun b hb => ?_
  exact of_decide_eq_true (List.all_eq_true.1 hascii b (Base58.mem_encode hb))

theorem Job.valid_hash (job : Job) : valid job.hash = true := by
  have hascii : ∀ d < 16, Bytes.hexDigit d < 0x80 := by decide
  refine Utf8.valid_of_ascii fun b hb => ?_
  obtain ⟨d, hd, rfl⟩ := Bytes.mem_ofNatHex hb
  exact hascii d hd

/-- The name of a language is text. -/
theorem Script.valid_language {header footer : Bytes} {job : Job} {compiled : Compiled}
    (h : compile header footer job = .ok compiled) : valid compiled.language = true := by
  have hall : ∀ language ∈ Language.all, valid language.name = true := by decide
  obtain ⟨language, hmem, body, -, rfl⟩ := compile_ok h
  exact hall language hmem

/-- The slug of a job that compiles is text. -/
theorem Script.valid_slug {header footer : Bytes} {job : Job} {compiled : Compiled}
    (h : compile header footer job = .ok compiled) : valid job.repository.slug = true := by
  cases ends_compile header footer job with
  | unknown _ hunknown => rw [hunknown] at h; cases h
  | refused _ _ _ hrefused => rw [hrefused] at h; cases h
  | compiled _ hslug _ _ => exact hslug.1

/-! ## Keeping a record -/

namespace Store

/-- The name of what belongs to an id. -/
theorem isFileName_append {suffix : Bytes} (time random : Nat) (hslash : Path.slash ∉ suffix)
    (hzero : 0 ∉ suffix) (hlength : suffix.length ≤ 100) :
    Disk.IsFileName (Ulid.encode time random ++ suffix) := by
  have hid := Ulid.length_encode time random
  have hlong : (Ulid.encode time random ++ suffix).length = 26 + suffix.length := by
    rw [List.length_append, hid]
  have hne : ∀ short : Bytes, short.length < 26 → Ulid.encode time random ++ suffix ≠ short := by
    rintro short hshort rfl
    omega
  refine ⟨⟨⟨hne [] (by decide), ?_⟩, hne Path.here (by decide), hne Path.up (by decide)⟩, ?_, ?_⟩
  · intro hmem
    rcases List.mem_append.1 hmem with hmem | hmem
    · exact absurd (Ulid.mem_encode hmem) (by decide)
    · exact hslash hmem
  · intro hmem
    rcases List.mem_append.1 hmem with hmem | hmem
    · exact absurd (Ulid.mem_encode hmem) (by decide)
    · exact hzero hmem
  · rw [hlong, Disk.maxName]
    omega

theorem isFileName_scriptName (time random : Nat) :
    Disk.IsFileName (scriptName (Ulid.encode time random)) :=
  isFileName_append time random (by decide) (by decide) (by decide)

theorem isFileName_recordName (time random : Nat) :
    Disk.IsFileName (recordName (Ulid.encode time random)) :=
  isFileName_append time random (by decide) (by decide) (by decide)

/-- A script that was kept has its record written last. -/
theorem keep_written {store : Store} {text : Bytes} {record kept : Record}
    (h : (store.keep text record).result = .ok kept) :
    (store.keep text record).store.dir = store.dir ∧
      ∃ before : Disk, before.write (store.pathOf (recordName record.id)) record.render =
        .ok (store.keep text record).store.disk := by
  revert h
  unfold keep
  dsimp only
  split
  · exact nofun
  split
  · exact nofun
  next written hscript =>
  split
  · exact nofun
  · next disk hrecord => exact fun _ => ⟨rfl, written, hrecord⟩

/-- What a store gives for a script that was kept. -/
theorem keep_read_back {store : Store} {text : Bytes} {record kept : Record}
    (h : (store.keep text record).result = .ok kept) :
    (store.keep text record).store.disk.read (store.pathOf (recordName record.id)) = .ok record.render ∧
      ((store.keep text record).store.record record.id = .ok record ↔
        Record.read record.render = .ok record) := by
  obtain ⟨hdir, before, hwrite⟩ := keep_written h
  have hopen := Disk.openAt_write hwrite
  have hpath : (store.keep text record).store.pathOf (recordName record.id) =
      store.pathOf (recordName record.id) := by
    rw [pathOf, pathOf, hdir]
  refine ⟨?_, ?_⟩
  · simp only [Disk.read, hopen, bind, Except.bind, pure, Except.pure]
  · rw [Store.record, hpath, hopen]
    dsimp only
    cases Record.read record.render <;> simp

/-- A directory that is there is left as it is. -/
theorem makeDirs_of_dir {disk : Disk} {dir : Bytes} {place : List Bytes}
    (hdir : disk.locate dir = .ok place) (hplace : disk.root.kinds place = some .dir) : disk.makeDirs dir = ⟨disk, none⟩ := by
  obtain ⟨folder, hwalk⟩ := Folder.kinds_eq_dir_iff.1 hplace
  have hentry : disk.entry dir = .ok (.dir folder) := by
    simp only [Disk.entry, hdir, bind, Except.bind, hwalk, pure, Except.pure]
  rw [Disk.makeDirs, Disk.makeDirsAux, hentry]

/-- **A script is kept where there is room** for it and its record. -/
theorem keep_of_hasRoom {store : Store} {record : Record} (text : Bytes)
    (hscript : store.disk.HasRoom store.dir (scriptName record.id))
    (hrecord : store.disk.HasRoom store.dir (recordName record.id))
    (hscriptName : Disk.IsFileName (scriptName record.id))
    (hrecordName : Disk.IsFileName (recordName record.id)) :
    (store.keep text record).result = .ok record := by
  obtain ⟨place, hdir, hplace, -⟩ := hscript.exists_place
  have hother : recordName record.id ≠ scriptName record.id := by
    intro h
    exact absurd (List.append_cancel_left h) (by decide)
  obtain ⟨written, hwrite, hroom⟩ := Disk.write_of_hasRoom hscript hscriptName text
  obtain ⟨disk, hwrite', -⟩ :=
    Disk.write_of_hasRoom (hroom _ hother hrecord) hrecordName record.render
  simp only [keep, makeDirs_of_dir hdir hplace, pathOf, hwrite, hwrite']

end Store

/-- The texts in the record of a job that compiles are valid, if the commit is. -/
theorem valid_record_iff {header footer : Bytes} {job : Job} {compiled : Script.Compiled}
    (h : Script.compile header footer job = .ok compiled) (time random : Nat) {record : Record}
    (hrecord : record = { id := Ulid.encode time random, slug := job.repository.slug,
                          commit := job.revision.commit, language := compiled.language,
                          fingerprint := compiled.tree.fingerprint, jobHash := job.hash }) :
    (∀ field, valid (record.get field) = true) ↔ valid job.revision.commit = true := by
  have hcommit : record.get .commit = job.revision.commit := by rw [hrecord, Record.get]
  rw [← hcommit]
  refine ⟨fun hall => hall .commit, fun hvalid field => ?_⟩
  cases field with
  | id => rw [hrecord, Record.get, Ulid.valid_encode]
  | slug => rw [hrecord, Record.get, Script.valid_slug h]
  | commit => exact hvalid
  | language => rw [hrecord, Record.get, Script.valid_language h]
  | fingerprint => rw [hrecord, Record.get, Statement.valid_fingerprint]
  | jobHash => rw [hrecord, Record.get, Job.valid_hash]

/-- **The record of a script survives the disk.** Of a job that compiles, the text of the record can stand
in a web page, whatever its slug and its commit hold, and it is read as the same record exactly if the
commit is valid. So wherever the job is saved, the disk is in the way, or the record that is returned is
in the store under its id, in that text, and is given again by the store exactly if the commit is valid.
The disk is not in the way of a directory with room for the script and its record. -/
theorem saved_record_read_back {header footer : Bytes} {job : Job} {compiled : Script.Compiled}
    (h : Script.compile header footer job = .ok compiled) (time random : Nat) :
    ∃ record : Record,
      record = { id := Ulid.encode time random, slug := job.repository.slug,
                 commit := job.revision.commit, language := compiled.language,
                 fingerprint := compiled.tree.fingerprint, jobHash := job.hash } ∧
      Json.IsPageText record.render ∧
      (Record.read record.render = .ok record ↔ valid job.revision.commit = true) ∧
      ∀ (store : Store) (saved : Store.Saved), store.save header footer job record.id = saved →
        (saved.result = .ok record ∧
            saved.store.disk.read (store.pathOf (Store.recordName record.id)) = .ok record.render ∧
            (saved.store.record record.id = .ok record ↔ valid job.revision.commit = true) ∨
          ∃ cause, saved.result = .error (.file cause)) ∧
        (store.disk.HasRoom store.dir (Store.scriptName record.id) →
          store.disk.HasRoom store.dir (Store.recordName record.id) → saved.result = .ok record) := by
  obtain ⟨record, hrecord⟩ : ∃ record : Record,
      record = { id := Ulid.encode time random, slug := job.repository.slug,
                 commit := job.revision.commit, language := compiled.language,
                 fingerprint := compiled.tree.fingerprint, jobHash := job.hash } := ⟨_, rfl⟩
  have hid : record.id = Ulid.encode time random := by rw [hrecord]
  have hback : Record.read record.render = .ok record ↔ valid job.revision.commit = true := by
    rw [Record.read_render_iff, valid_record_iff h time random hrecord]
  refine ⟨record, hrecord, Json.isPageText_fields _, hback, ?_⟩
  rintro store saved rfl
  have hsave : store.save header footer job record.id = store.keep compiled.text record := by
    rw [Store.save_of_ok h, hrecord]
  rw [hsave]
  refine ⟨?_, fun hscript hinfo => ?_⟩
  · rcases Store.keep_result store compiled.text record with hkept | hfailed
    · obtain ⟨hread, hgiven⟩ := Store.keep_read_back hkept
      exact Or.inl ⟨hkept, hread, hgiven.trans hback⟩
    · exact Or.inr hfailed
  · refine Store.keep_of_hasRoom compiled.text hscript hinfo ?_ ?_
    · rw [hid]
      exact Store.isFileName_scriptName time random
    · rw [hid]
      exact Store.isFileName_recordName time random

/-- A job whose slug and commit hold control characters, quotes, markup, separators of lines, the
replacement character and one that takes four bytes. -/
def markupJob : Job :=
  { Job.sample with
    revision := { Job.sample.revision with
      commit := [0, 9, 10, 34, 92, 127] ++ bytes "</b>&" ++ [0xE2, 0x80, 0xA9, 0xF0, 0x9F, 0x98, 0x80] }
    repository :=
      ⟨[1, 8, 12, 13, 31, 34, 92] ++ bytes "<b>&amp;" ++ [0xE2, 0x80, 0xA8, 0xEF, 0xBF, 0xBD],
        bytes "a.git"⟩ }

/-- A store in a directory that is not the working directory. -/
def outStore : Store := ⟨⟨[(bytes "in", .dir []), (bytes "out", .dir [])], [bytes "in"]⟩, bytes "./../out"⟩

theorem saved_record_read_back_sample :
    ∃ compiled, Script.compile [] [] markupJob = .ok compiled ∧
      ∃ record : Record, record.slug = markupJob.repository.slug ∧
        record.commit = markupJob.revision.commit ∧ Json.IsPageText record.render ∧
        (outStore.save [] [] markupJob record.id).result = .ok record ∧
        (outStore.save [] [] markupJob record.id).store.record record.id = .ok record := by
  have hlanguage : markupJob.HasLanguage := List.mem_cons_self
  have hslug : markupJob.HasTextSlug := isPathText_iff.1 (by decide +kernel)
  have hcommit : valid markupJob.revision.commit = true := by decide +kernel
  obtain ⟨compiled, hcompile⟩ : ∃ compiled, Script.compile [] [] markupJob = .ok compiled := by
    cases Script.ends_compile [] [] markupJob with
    | unknown hunknown _ => exact absurd hlanguage hunknown
    | refused _ hrefused _ _ => exact absurd hslug hrefused
    | compiled _ _ result h => exact ⟨result, h⟩
  have hdir : outStore.disk.locate outStore.dir = .ok [bytes "out"] := by decide +kernel
  have hkind : outStore.disk.root.kinds [bytes "out"] = some .dir := by decide +kernel
  have hroom : ∀ name ∈ [Store.scriptName (Ulid.encode 7 11), Store.recordName (Ulid.encode 7 11)],
      outStore.disk.root.kinds ([bytes "out"] ++ [name]) ≠ some .dir ∧
        (Path.join [outStore.dir, name]).length ≤ Disk.maxPath := by decide +kernel
  obtain ⟨hscript, hscriptLength⟩ := hroom _ List.mem_cons_self
  obtain ⟨hinfo, hinfoLength⟩ := hroom _ (List.mem_cons_of_mem _ List.mem_cons_self)
  obtain ⟨record, hrecord, hpage, -, hsaved⟩ := saved_record_read_back hcompile 7 11
  obtain ⟨hends, hkept⟩ := hsaved outStore _ rfl
  have hid : record.id = Ulid.encode 7 11 := by rw [hrecord]
  rw [← hid] at hscript hscriptLength hinfo hinfoLength
  have hresult := hkept ⟨⟨_, hdir, hkind, hscript⟩, hscriptLength⟩ ⟨⟨_, hdir, hkind, hinfo⟩, hinfoLength⟩
  refine ⟨compiled, hcompile, record, by rw [hrecord], by rw [hrecord], hpage, hresult, ?_⟩
  rcases hends with ⟨-, -, hgiven⟩ | ⟨cause, hfailed⟩
  · exact hgiven.2 hcommit
  · rw [hresult] at hfailed
    cases hfailed

end BuildScript
