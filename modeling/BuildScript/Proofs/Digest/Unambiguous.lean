import BuildScript.Proofs.Digest.Encoding

/-!
# Fingerprints of different trees

What is digested of a script tree says all there is to say about it, references and empty places
apart: a reference counts as what it refers to, and an empty place as the statement that does nothing.

* `resolved`: a node without references, with empty places for statements filled.
* `ofDatum`: the tree that a datum stands for; `ofDatum_datum`: **it is the resolved one.**
* `fits_datum`: the data of nodes have the shapes of their families; `fingerprint_datum`: so every
  statement has a fingerprint.
* `fingerprint_input_unambiguous`: so two trees have one fingerprint only if they are equal when
  resolved, or if the digest has a collision.
-/

namespace BuildScript

open Datum
open LittleEndian (limit)

/-! ## Nodes without references -/

/-- The option at the end of a chain of references. -/
def CommandOption.resolved : CommandOption → CommandOption
  | reference option => option.resolved
  | option => option

/-- The command at the end of a chain of references. -/
def Command.resolved : Command → Command
  | reference command => command.resolved
  | command => command

/-- A condition with every reference replaced by what it refers to. -/
def Condition.resolved : Condition → Condition
  | reference condition => condition.resolved
  | succeeds command => succeeds command.resolved
  | .and left right => .and left.resolved right.resolved
  | .or left right => .or left.resolved right.resolved
  | .not inner => .not inner.resolved
  | condition => condition

mutual
/-- A statement with every reference replaced by what it refers to, and every empty place for a
statement filled with the one that does nothing. -/
def Statement.resolved : Statement → Statement
  | .missing | .noop => .noop
  | .sequence statements => .sequence (Statement.resolvedEach statements)
  | .fold name body => .fold name body.resolved
  | .action command options => .action command.resolved (options.map CommandOption.resolved)
  | .branch condition onTrue onFalse =>
    .branch condition.resolved onTrue.resolved onFalse.resolved
  | .reference statement => statement.resolved
/-- The same for statements in a row. -/
def Statement.resolvedEach : List Statement → List Statement
  | [] => []
  | statement :: rest => statement.resolved :: Statement.resolvedEach rest
end

/-! ## The tree of a datum -/

/-- What a text holds; nothing for any other datum. -/
def Datum.contents : Datum → Bytes
  | .text value => value
  | _ => []

/-- What a list holds; nothing for any other datum. -/
def Datum.items : Datum → List Datum
  | .list items => items
  | _ => []

/-- The option that a datum stands for. -/
def CommandOption.ofDatum : Datum → CommandOption
  | .record _ [(_, a)] => .display a.contents
  | .record name _ =>
    if name = bytes "EchoOption" then .echo
    else if name = bytes "AssertOption" then .assert
    else .missing
  | _ => .missing

/-- The command that a datum stands for. -/
def Command.ofDatum : Datum → Command
  | .record name [(_, a)] =>
    if name = bytes "Raw" then .raw a.contents
    else if name = bytes "Echo" then .echo a.contents
    else if name = bytes "ChangeDir" then .changeDir a.contents
    else if name = bytes "MakeDir" then .makeDir a.contents
    else .remove a.contents
  | .record name [(_, a), (_, b)] =>
    if name = bytes "SetEnv" then .setEnv a.contents b.contents
    else if name = bytes "WriteFile" then .writeFile a.contents b.contents
    else if name = bytes "CopyFile" then .copy a.contents b.contents
    else .move a.contents b.contents
  | .record name _ => if name = bytes "Newline" then .newline else .missing
  | _ => .missing

/-- The condition that a datum stands for. -/
def Condition.ofDatum : Datum → Condition
  | .record name [(_, a)] =>
    if name = bytes "PathExists" then .present a.contents
    else if name = bytes "IsDirectory" then .isDirectory a.contents
    else if name = bytes "IsFile" then .isFile a.contents
    else if name = bytes "CommandSucceeds" then .succeeds (.ofDatum a)
    else .not (ofDatum a)
  | .record name [(_, a), (_, b)] =>
    if name = bytes "And" then .and (ofDatum a) (ofDatum b) else .or (ofDatum a) (ofDatum b)
  | _ => .missing

mutual
/-- The statement that a datum stands for. -/
def Statement.ofDatum : Datum → Statement
  | .record _ [(_, .list items)] => .sequence (Statement.ofData items)
  | .record name [(_, a), (_, b)] =>
    if name = bytes "Fold" then .fold a.contents (Statement.ofDatum b)
    else .action (.ofDatum a) (b.items.map CommandOption.ofDatum)
  | .record _ [(_, a), (_, b), (_, c)] =>
    .branch (.ofDatum a) (Statement.ofDatum b) (Statement.ofDatum c)
  | _ => .noop
/-- The statements that data in a row stand for. -/
def Statement.ofData : List Datum → List Statement
  | [] => []
  | item :: rest => Statement.ofDatum item :: Statement.ofData rest
end

theorem CommandOption.ofDatum_datum (o : CommandOption) : ofDatum o.datum = o.resolved := by
  induction o with
  | reference option ih => exact ih
  | _ => rfl

theorem Command.ofDatum_datum (c : Command) : ofDatum c.datum = c.resolved := by
  induction c with
  | reference command ih => exact ih
  | _ => rfl

theorem Condition.ofDatum_datum (c : Condition) : ofDatum c.datum = c.resolved := by
  induction c with
  | reference condition ih => exact ih
  | succeeds command => exact congrArg succeeds command.ofDatum_datum
  | and left right ihl ihr => exact congrArg₂ Condition.and ihl ihr
  | or left right ihl ihr => exact congrArg₂ Condition.or ihl ihr
  | not inner ih => exact congrArg Condition.not ih
  | _ => rfl

mutual
/-- **A tree can be read back from its datum**, apart from references and empty places. -/
theorem Statement.ofDatum_datum : ∀ s : Statement, Statement.ofDatum s.datum = s.resolved := by
  intro s
  match s with
  | .missing => rfl
  | .noop => rfl
  | .sequence statements => exact congrArg Statement.sequence (Statement.ofData_data statements)
  | .fold name body => exact congrArg (Statement.fold name) body.ofDatum_datum
  | .action command options =>
    have hoptions : (options.map CommandOption.datum).map CommandOption.ofDatum =
        options.map CommandOption.resolved := by
      rw [List.map_map]
      exact List.map_congr_left fun option _ => option.ofDatum_datum
    have hname : bytes "Action" ≠ bytes "Fold" := by decide
    simp only [Statement.datum, Statement.ofDatum, if_neg hname, Datum.items, command.ofDatum_datum,
      hoptions, Statement.resolved]
  | .branch condition onTrue onFalse =>
    have hcondition := condition.ofDatum_datum
    have htrue := onTrue.ofDatum_datum
    have hfalse := onFalse.ofDatum_datum
    simp only [Statement.datum, Statement.ofDatum, Statement.resolved, hcondition, htrue, hfalse]
  | .reference statement => exact statement.ofDatum_datum
/-- The same for statements in a row. -/
theorem Statement.ofData_data : ∀ statements : List Statement,
    Statement.ofData (Statement.data statements) = Statement.resolvedEach statements := by
  intro statements
  match statements with
  | [] => rfl
  | statement :: rest =>
    exact congrArg₂ List.cons statement.ofDatum_datum (Statement.ofData_data rest)
end

/-! ## References and empty places leave no trace -/

theorem CommandOption.datum_resolved (o : CommandOption) : o.resolved.datum = o.datum := by
  induction o with
  | reference option ih => exact ih
  | _ => rfl

theorem Command.datum_resolved (c : Command) : c.resolved.datum = c.datum := by
  induction c with
  | reference command ih => exact ih
  | _ => rfl

theorem Condition.datum_resolved (c : Condition) : c.resolved.datum = c.datum := by
  induction c with
  | reference condition ih => exact ih
  | succeeds command => simp only [resolved, datum, command.datum_resolved]
  | and left right ihl ihr => simp only [resolved, datum, ihl, ihr]
  | or left right ihl ihr => simp only [resolved, datum, ihl, ihr]
  | not inner ih => simp only [resolved, datum, ih]
  | _ => rfl

mutual
theorem Statement.datum_resolved : ∀ s : Statement, s.resolved.datum = s.datum := by
  intro s
  match s with
  | .missing => rfl
  | .noop => rfl
  | .sequence statements =>
    simp only [Statement.resolved, Statement.datum, Statement.data_resolved statements]
  | .fold name body => simp only [Statement.resolved, Statement.datum, body.datum_resolved]
  | .action command options =>
    have hoptions : (options.map CommandOption.resolved).map CommandOption.datum =
        options.map CommandOption.datum := by
      rw [List.map_map]
      exact List.map_congr_left fun option _ => option.datum_resolved
    simp only [Statement.resolved, Statement.datum, command.datum_resolved, hoptions]
  | .branch condition onTrue onFalse =>
    simp only [Statement.resolved, Statement.datum, condition.datum_resolved,
      onTrue.datum_resolved, onFalse.datum_resolved]
  | .reference statement => exact statement.datum_resolved
theorem Statement.data_resolved : ∀ statements : List Statement,
    Statement.data (Statement.resolvedEach statements) = Statement.data statements := by
  intro statements
  match statements with
  | [] => rfl
  | statement :: rest =>
    simp only [Statement.resolvedEach, Statement.data, statement.datum_resolved,
      Statement.data_resolved rest]
end

/-! ## The shapes of nodes -/

/-- A record has the shape of a node if its layout is among those of the family. -/
theorem Datum.fits_record {family : Family} {name : String} {values : List (Bytes × Datum)}
    (fields : List (String × Shape)) (h : layout name fields ∈ records family)
    (hvalues : FitsFields (layout name fields).2 values) :
    Fits (.node family) (record (bytes name) values) := by
  rw [Fits]
  exact ⟨_, h, rfl, hvalues⟩

/-- A record of texts. -/
theorem Datum.fits_textRecord {family : Family} {name : String} {fields : List (String × Bytes)}
    (h : layout name (fields.map fun field => (field.1, .text)) ∈ records family) :
    Fits (.node family) (textRecord name fields) := by
  refine fits_record _ h ?_
  clear h
  induction fields with
  | nil => simp [layout, FitsFields]
  | cons field rest ih => simpa [layout, FitsFields, Fits] using ih

/-- An empty place. -/
theorem Datum.fits_nothing (family : Family) : Fits (.node family) nothing := by
  refine fits_record [] ?_ (by simp [layout, FitsFields])
  cases family <;> simp [records]

theorem CommandOption.fits_datum (o : CommandOption) : Fits (.node .option) o.datum := by
  induction o with
  | reference option ih => exact ih
  | missing => exact fits_nothing .option
  | _ => exact fits_textRecord (by simp [records])

theorem Command.fits_datum (c : Command) : Fits (.node .command) c.datum := by
  induction c with
  | reference command ih => exact ih
  | missing => exact fits_nothing .command
  | _ => exact fits_textRecord (by simp [records])

theorem Condition.fits_datum (c : Condition) : Fits (.node .condition) c.datum := by
  induction c with
  | reference condition ih => exact ih
  | missing => exact fits_nothing .condition
  | succeeds command =>
    refine fits_record [("Command", .node .command)] (by simp [records]) ?_
    simp [layout, FitsFields, command.fits_datum]
  | and left right ihl ihr =>
    refine fits_record [("A", .node .condition), ("B", .node .condition)] (by simp [records]) ?_
    simp [layout, FitsFields, ihl, ihr]
  | or left right ihl ihr =>
    refine fits_record [("A", .node .condition), ("B", .node .condition)] (by simp [records]) ?_
    simp [layout, FitsFields, ihl, ihr]
  | not inner ih =>
    refine fits_record [("Cond", .node .condition)] (by simp [records]) ?_
    simp [layout, FitsFields, ih]
  | _ => exact fits_textRecord (by simp [records])

theorem CommandOption.fitsAll_data (options : List CommandOption) :
    FitsAll .option (options.map CommandOption.datum) := by
  induction options with
  | nil => simp [FitsAll]
  | cons option rest ih => simpa [FitsAll, option.fits_datum] using ih

mutual
/-- **The datum of a statement has the shape of one.** -/
theorem Statement.fits_datum : ∀ s : Statement, Fits (.node .statement) s.datum := by
  intro s
  match s with
  | .missing => exact fits_nothing .statement
  | .noop => exact fits_nothing .statement
  | .sequence statements =>
    have hdata := Statement.fitsAll_data statements
    rw [Statement.datum]
    refine fits_record [("Statements", .nodes .statement)] (by simp [records]) ?_
    simp [layout, FitsFields, Fits, hdata]
  | .fold name body =>
    have hbody := body.fits_datum
    rw [Statement.datum]
    refine fits_record [("Name", .text), ("Body", .node .statement)] (by simp [records]) ?_
    simp [layout, FitsFields, Fits, hbody]
  | .action command options =>
    have hcommand := command.fits_datum
    have hoptions := CommandOption.fitsAll_data options
    rw [Statement.datum]
    refine fits_record [("Command", .node .command), ("Options", .nodes .option)]
      (by simp [records]) ?_
    simp [layout, FitsFields, Fits, hcommand, hoptions]
  | .branch condition onTrue onFalse =>
    have hcondition := condition.fits_datum
    have htrue := onTrue.fits_datum
    have hfalse := onFalse.fits_datum
    rw [Statement.datum]
    refine fits_record [("Cond", .node .condition), ("Then", .node .statement),
      ("Else", .node .statement)] (by simp [records]) ?_
    simp [layout, FitsFields, hcondition, htrue, hfalse]
  | .reference statement => exact statement.fits_datum
/-- The same for statements in a row. -/
theorem Statement.fitsAll_data : ∀ statements : List Statement,
    FitsAll .statement (Statement.data statements) := by
  intro statements
  match statements with
  | [] => simp [Statement.data, FitsAll]
  | statement :: rest =>
    have hstatement := statement.fits_datum
    have hrest := Statement.fitsAll_data rest
    simp [Statement.data, FitsAll, hstatement, hrest]
end

/-! ## Fingerprints -/

/-- **Every statement has a fingerprint.** -/
theorem Statement.fingerprint_datum (s : Statement) : s.datum.fingerprint = .ok s.fingerprint := by
  rw [Datum.fingerprint, unsupported?_of_fits _ s.fits_datum]
  rfl

namespace Datum

/-- Two different texts that the fingerprint does not tell apart: either their digests are equal, or
their digests differ and are written alike. -/
def Collide (x y : Bytes) : Prop :=
  x ≠ y ∧ (Blake2b.digest x = Blake2b.digest y ∨
    Blake2b.digest x ≠ Blake2b.digest y ∧
      Base58.encode (Blake2b.digest x) = Base58.encode (Blake2b.digest y))

/-- What it means that the encodings of two data are unambiguous, when `same` says that the data stand
for the same: they are equal only then, the one is no beginning of the other, and equal fingerprints
of what is not the same are a collision. -/
structure Distinguish (d d' : Datum) (same : Prop) : Prop where
  encode_eq : d.encode = d'.encode ↔ same
  delimited : ∀ r r' : Bytes, d.encode ++ r = d'.encode ++ r' ↔ same ∧ r = r'
  digest_eq : d.digest = d'.digest ↔ same ∨ Collide d.encode d'.encode

/-- Equal fingerprints are those of equal encodings, or a collision. -/
theorem digest_eq_iff (d d' : Datum) :
    d.digest = d'.digest ↔ d.encode = d'.encode ∨ Collide d.encode d'.encode := by
  unfold digest Collide
  constructor
  · intro h
    by_cases henc : d.encode = d'.encode
    · exact Or.inl henc
    · by_cases hdigest : Blake2b.digest d.encode = Blake2b.digest d'.encode
      · exact Or.inr ⟨henc, Or.inl hdigest⟩
      · exact Or.inr ⟨henc, Or.inr ⟨hdigest, h⟩⟩
  · rintro (h | ⟨-, h | ⟨-, h⟩⟩)
    · rw [h]
    · rw [h]
    · exact h

/-- **Data of one shape are distinguished** if they are equal exactly when they stand for the same. -/
theorem distinguish_of_fits {d d' : Datum} {shape : Shape} {same : Prop} (hd : Fits shape d)
    (hd' : Fits shape d') (hshort : d.Short) (hshort' : d'.Short) (hsame : d = d' ↔ same) :
    Distinguish d d' same := by
  have hends : ∀ r r' : Bytes, d.encode ++ r = d'.encode ++ r' ↔ same ∧ r = r' := by
    intro r r'
    constructor
    · intro h
      obtain ⟨hdata, hrest⟩ := encode_append_inj d d' hd hd' hshort hshort' h
      exact ⟨hsame.1 hdata, hrest⟩
    · rintro ⟨h, rfl⟩
      rw [hsame.2 h]
  have hencode : d.encode = d'.encode ↔ same := by
    have h := hends [] []
    simpa using h
  refine ⟨hencode, hends, ?_⟩
  rw [digest_eq_iff, hencode]

/-- **Nodes of one family are distinguished** if their data have the shape of the family, can be read
back and do not show references. -/
theorem distinguish_nodes {α : Type} {datum : α → Datum} {resolved : α → α} {ofDatum : Datum → α}
    {shape : Shape} (hfits : ∀ node, Fits shape (datum node))
    (hread : ∀ node, ofDatum (datum node) = resolved node)
    (hkeep : ∀ node, datum (resolved node) = datum node) (a b : α) (ha : (datum a).Short)
    (hb : (datum b).Short) : Distinguish (datum a) (datum b) (resolved a = resolved b) := by
  refine distinguish_of_fits (hfits a) (hfits b) ha hb ⟨fun h => ?_, fun h => ?_⟩
  · rw [← hread a, ← hread b, h]
  · rw [← hkeep a, ← hkeep b, h]

end Datum

/-- **What is digested of a tree is unambiguous.** For any two statements, commands, conditions or
options whose texts and lists are shorter than 2^64, the digested bytes are equal exactly if the nodes
are equal when resolved, and the bytes of one followed by anything are the bytes of the other followed
by anything only then. So two nodes that differ when resolved have one fingerprint only by a
collision. -/
theorem fingerprint_input_unambiguous :
    (∀ s t : Statement, s.datum.Short → t.datum.Short →
      Distinguish s.datum t.datum (s.resolved = t.resolved)) ∧
    (∀ c d : Command, c.datum.Short → d.datum.Short →
      Distinguish c.datum d.datum (c.resolved = d.resolved)) ∧
    (∀ c d : Condition, c.datum.Short → d.datum.Short →
      Distinguish c.datum d.datum (c.resolved = d.resolved)) ∧
    (∀ o p : CommandOption, o.datum.Short → p.datum.Short →
      Distinguish o.datum p.datum (o.resolved = p.resolved)) := by
  refine ⟨?_, ?_, ?_, ?_⟩
  · exact distinguish_nodes Statement.fits_datum Statement.ofDatum_datum Statement.datum_resolved
  · exact distinguish_nodes Command.fits_datum Command.ofDatum_datum Command.datum_resolved
  · exact distinguish_nodes Condition.fits_datum Condition.ofDatum_datum Condition.datum_resolved
  · exact distinguish_nodes CommandOption.fits_datum CommandOption.ofDatum_datum
      CommandOption.datum_resolved

/-- A script with a reference and an empty place. -/
def referring : Statement := .reference (.sequence [.missing, .action (.reference .newline) [.missing]])

/-- The same script without them. -/
def referred : Statement := .sequence [.noop, .action .newline [.missing]]

/-- Two trees that differ only in references and empty places, and two commands whose texts in a row
are the same bytes. -/
theorem fingerprint_input_unambiguous_sample :
    referring.datum.Short ∧ referred.datum.Short ∧ referring.fingerprint = referred.fingerprint ∧
    (Command.setEnv (bytes "a") (bytes "bc")).datum.Short ∧
    (Command.setEnv (bytes "ab") (bytes "c")).datum.Short ∧
    (Command.setEnv (bytes "a") (bytes "bc")).datum.encode ≠
      (Command.setEnv (bytes "ab") (bytes "c")).datum.encode := by
  have hlimit : ∀ n < 4, n < limit := fun n hn => Nat.lt_trans hn (by decide)
  have hreferring : referring.datum.Short := by
    simp [referring, Statement.datum, Statement.data, Command.datum, CommandOption.datum, nothing,
      textRecord, Short, ShortAll, ShortFields, hlimit]
  have hreferred : referred.datum.Short := by
    simp [referred, Statement.datum, Statement.data, Command.datum, CommandOption.datum, nothing,
      textRecord, Short, ShortAll, ShortFields, hlimit]
  have hshort : ∀ a b : Bytes, a.length < 4 → b.length < 4 → (Command.setEnv a b).datum.Short := by
    intro a b ha hb
    simp [Command.datum, textRecord, Short, ShortFields, hlimit, ha, hb]
  have hleft := hshort (bytes "a") (bytes "bc") (by decide) (by decide)
  have hright := hshort (bytes "ab") (bytes "c") (by decide) (by decide)
  obtain ⟨hstatements, hcommands, -, -⟩ := fingerprint_input_unambiguous
  refine ⟨hreferring, hreferred, ?_, hleft, hright, ?_⟩
  · exact (hstatements _ _ hreferring hreferred).digest_eq.2 (Or.inl rfl)
  · intro h
    have hsame := (hcommands _ _ hleft hright).encode_eq.1 h
    revert hsame
    decide

end BuildScript
