import BuildScript.Digest.Fingerprint
import Mathlib.Data.List.Basic

/-!
# Encodings can be told apart

The encoding of a datum has no mark of its kind and no end mark. What can be read back from it is
known from the place where it stands: the name of a record says which fields follow, and the name of
a field says what it holds.

* `Shape`, `records`: what may stand in a place of a script tree, family by family.
* `Fits`, `Short`: a datum that has a shape, and whose texts and lists are not too long for their
  lengths to be written.
* `unsupported?_of_fits`: what has a shape has a fingerprint.
* `encode_append_inj`: **the encodings of data of one shape are prefix-free.**
-/

namespace BuildScript

/-! ## Lengths and texts -/

namespace LittleEndian

theorem length_encode (width n : Nat) : (encode width n).length = width := by
  induction width generalizing n with
  | zero => rfl
  | succ width ih => rw [encode, List.length_cons, ih]

/-- Numbers that fit into the bytes are told apart by them. -/
theorem encode_inj {width : Nat} : ∀ {n m : Nat}, n < Nat.pow 256 width → m < Nat.pow 256 width →
    encode width n = encode width m → n = m := by
  induction width with
  | zero =>
    intro n m hn hm _
    have hn' : n < 1 := hn
    have hm' : m < 1 := hm
    omega
  | succ width ih =>
    intro n m hn hm h
    rw [encode, encode, List.cons.injEq] at h
    have hlow : n % 256 = m % 256 := by
      have hbyte := congrArg UInt8.toNat h.1
      simpa using hbyte
    have hhigh : n / 256 = m / 256 :=
      ih (Nat.div_lt_of_lt_mul (by rw [Nat.mul_comm]; exact hn))
        (Nat.div_lt_of_lt_mul (by rw [Nat.mul_comm]; exact hm)) h.2
    omega

/-- The first number whose length cannot be written. -/
def limit : Nat := 0x10000000000000000

theorem ofLength_inj {n m : Nat} (hn : n < limit) (hm : m < limit) (h : ofLength n = ofLength m) :
    n = m := by
  have hlimit : limit = Nat.pow 256 8 := by decide
  rw [hlimit] at hn hm
  exact encode_inj hn hm h

/-- Lengths have the same number of bytes, so nothing that follows can be taken for a part of them. -/
theorem ofLength_append_inj {n m : Nat} {r r' : Bytes} (hn : n < limit) (hm : m < limit)
    (h : ofLength n ++ r = ofLength m ++ r') : n = m ∧ r = r' := by
  have hlength : (ofLength n).length = (ofLength m).length := by
    rw [ofLength, ofLength, length_encode, length_encode]
  obtain ⟨hhead, hrest⟩ := List.append_inj h hlength
  exact ⟨ofLength_inj hn hm hhead, hrest⟩

end LittleEndian

open LittleEndian (limit ofLength_append_inj)

namespace Datum

/-- A text with its length in front ends where its length says. -/
theorem encodeText_append_inj {s t r r' : Bytes} (hs : s.length < limit) (ht : t.length < limit)
    (h : encodeText s ++ r = encodeText t ++ r') : s = t ∧ r = r' := by
  unfold encodeText at h
  rw [List.append_assoc, List.append_assoc] at h
  obtain ⟨hlength, hrest⟩ := ofLength_append_inj hs ht h
  exact List.append_inj hrest hlength

mutual
/-- The texts and lists in a datum are short enough for their lengths to be written. -/
def Short : Datum → Prop
  | text value => value.length < limit
  | list items => items.length < limit ∧ ShortAll items
  | record _ fields => ShortFields fields
  | bool _ | signed _ | unsigned _ | unsupported _ => True
/-- The same for data in a row. -/
def ShortAll : List Datum → Prop
  | [] => True
  | item :: rest => item.Short ∧ ShortAll rest
/-- The same for the values of fields. -/
def ShortFields : List (Bytes × Datum) → Prop
  | [] => True
  | (_, value) :: rest => value.Short ∧ ShortFields rest
end

/-! ## Shapes -/

/-- The families of nodes of a script tree. -/
inductive Family where
  | option
  | command
  | condition
  | statement
  deriving Repr, DecidableEq

/-- What a place in a script tree holds. -/
inductive Shape where
  | text
  /-- A node of a family. -/
  | node (family : Family)
  /-- Nodes of a family in a row. -/
  | nodes (family : Family)
  deriving Repr, DecidableEq

/-- The name of a record, with the names and shapes of its fields. -/
abbrev Layout := Bytes × List (Bytes × Shape)

/-- A layout written with literals. -/
def layout (name : String) (fields : List (String × Shape)) : Layout :=
  (bytes name, fields.map fun (field, shape) => (bytes field, shape))

/-- The records that stand for the nodes of a family. An empty place of any family is written as the
statement that does nothing. -/
def records : Family → List Layout
  | .option =>
    [layout "NoopStatement" [], layout "EchoOption" [], layout "AssertOption" [],
      layout "DisplayOption" [("Text", .text)]]
  | .command =>
    [layout "NoopStatement" [], layout "Raw" [("Text", .text)], layout "Echo" [("Text", .text)],
      layout "Newline" [], layout "SetEnv" [("Key", .text), ("Value", .text)],
      layout "ChangeDir" [("Path", .text)], layout "WriteFile" [("Path", .text), ("Data", .text)],
      layout "MakeDir" [("Path", .text)], layout "CopyFile" [("From", .text), ("To", .text)],
      layout "MoveFile" [("From", .text), ("To", .text)], layout "RemoveFile" [("Path", .text)]]
  | .condition =>
    [layout "NoopStatement" [], layout "PathExists" [("Path", .text)],
      layout "IsDirectory" [("Path", .text)], layout "IsFile" [("Path", .text)],
      layout "CommandSucceeds" [("Command", .node .command)],
      layout "And" [("A", .node .condition), ("B", .node .condition)],
      layout "Or" [("A", .node .condition), ("B", .node .condition)],
      layout "Not" [("Cond", .node .condition)]]
  | .statement =>
    [layout "NoopStatement" [], layout "Sequence" [("Statements", .nodes .statement)],
      layout "Fold" [("Name", .text), ("Body", .node .statement)],
      layout "Action" [("Command", .node .command), ("Options", .nodes .option)],
      layout "If" [("Cond", .node .condition), ("Then", .node .statement),
        ("Else", .node .statement)]]

/-- **The name of a record says which fields it has.** -/
theorem records_unique (family : Family) :
    ∀ l ∈ records family, ∀ l' ∈ records family, l.1 = l'.1 → l = l' := by
  cases family <;> decide +kernel

/-- The names in a layout are short. -/
theorem records_short (family : Family) :
    ∀ l ∈ records family, l.1.length < limit ∧ ∀ field ∈ l.2, field.1.length < limit := by
  cases family <;> decide +kernel

mutual
/-- A datum has a shape. -/
def Fits : Shape → Datum → Prop
  | .text, text _ => True
  | .node family, record name fields =>
    ∃ l ∈ records family, l.1 = name ∧ FitsFields l.2 fields
  | .nodes family, list items => FitsAll family items
  | _, _ => False
/-- Data in a row are nodes of a family. -/
def FitsAll (family : Family) : List Datum → Prop
  | [] => True
  | item :: rest => Fits (.node family) item ∧ FitsAll family rest
/-- Fields have the names and shapes of a layout. -/
def FitsFields : List (Bytes × Shape) → List (Bytes × Datum) → Prop
  | [], [] => True
  | (name, shape) :: layout, (name', value) :: rest =>
    name' = name ∧ Fits shape value ∧ FitsFields layout rest
  | _, _ => False
end

mutual
/-- What has a shape holds no value of a kind without a fingerprint. -/
theorem unsupported?_of_fits : ∀ (d : Datum) {shape : Shape}, Fits shape d → d.unsupported? = none := by
  intro d shape h
  match shape, d with
  | .text, .text s => rw [unsupported?]
  | .nodes family, .list items =>
    rw [Fits] at h
    rw [unsupported?]
    exact unsupportedIn?_of_fitsAll items h
  | .node family, .record name fields =>
    rw [Fits] at h
    obtain ⟨l, -, -, hfields⟩ := h
    rw [unsupported?]
    exact unsupportedField?_of_fitsFields fields hfields
theorem unsupportedIn?_of_fitsAll : ∀ (items : List Datum) {family : Family}, FitsAll family items →
    unsupportedIn? items = none := by
  intro items family h
  match items with
  | [] => rw [unsupportedIn?]
  | item :: rest =>
    rw [FitsAll] at h
    rw [unsupportedIn?, unsupported?_of_fits item h.1, Option.none_or]
    exact unsupportedIn?_of_fitsAll rest h.2
theorem unsupportedField?_of_fitsFields : ∀ (fields : List (Bytes × Datum))
    {layout : List (Bytes × Shape)}, FitsFields layout fields → unsupportedField? fields = none := by
  intro fields layout h
  match layout, fields with
  | [], [] => rw [unsupportedField?]
  | (name, shape) :: layout, (name', value) :: rest =>
    rw [FitsFields] at h
    rw [unsupportedField?, unsupported?_of_fits value h.2.1, Option.none_or]
    exact unsupportedField?_of_fitsFields rest h.2.2
end

/-! ## Prefix-free -/

mutual
/-- **The encodings of data of one shape are prefix-free**: where one ends does not depend on what
follows, and it ends nowhere else. -/
theorem encode_append_inj : ∀ (d d' : Datum) {shape : Shape} {r r' : Bytes}, Fits shape d →
    Fits shape d' → d.Short → d'.Short → d.encode ++ r = d'.encode ++ r' → d = d' ∧ r = r' := by
  intro d d' shape r r' hfits hfits' hshort hshort' h
  match shape, d, d' with
  | .text, .text s, .text t =>
    rw [Short] at hshort hshort'
    rw [encode, encode] at h
    obtain ⟨rfl, hrest⟩ := encodeText_append_inj hshort hshort' h
    exact ⟨rfl, hrest⟩
  | .nodes family, .list items, .list items' =>
    rw [Fits] at hfits hfits'
    rw [Short] at hshort hshort'
    rw [encode, encode, List.append_assoc, List.append_assoc] at h
    -- the lists are equally long, so the items can be compared one by one
    obtain ⟨hlength, h⟩ := ofLength_append_inj hshort.1 hshort'.1 h
    obtain ⟨rfl, hrest⟩ :=
      encodeAll_append_inj items items' hlength hfits hfits' hshort.2 hshort'.2 h
    exact ⟨rfl, hrest⟩
  | .node family, .record name fields, .record name' fields' =>
    rw [Fits] at hfits hfits'
    obtain ⟨l, hl, rfl, hfields⟩ := hfits
    obtain ⟨l', hl', rfl, hfields'⟩ := hfits'
    rw [Short] at hshort hshort'
    rw [encode, encode, List.append_assoc, List.append_assoc] at h
    -- equal names mean equal layouts, and then the fields can be compared one by one
    obtain ⟨hname, hafter⟩ :=
      encodeText_append_inj (records_short family l hl).1 (records_short family l' hl').1 h
    obtain rfl := records_unique family l hl l' hl' hname
    obtain ⟨rfl, hrest⟩ := encodeFields_append_inj fields fields' (records_short family l hl).2
      hfields hfields' hshort hshort' hafter
    exact ⟨rfl, hrest⟩
/-- The same for equally many nodes of one family. -/
theorem encodeAll_append_inj : ∀ (items items' : List Datum) {family : Family} {r r' : Bytes},
    items.length = items'.length → FitsAll family items → FitsAll family items' → ShortAll items →
    ShortAll items' → encodeAll items ++ r = encodeAll items' ++ r' → items = items' ∧ r = r' := by
  intro items items' family r r' hlength hfits hfits' hshort hshort' h
  match items, items' with
  | [], [] => exact ⟨rfl, h⟩
  | item :: rest, item' :: rest' =>
    rw [FitsAll] at hfits hfits'
    rw [ShortAll] at hshort hshort'
    rw [encodeAll, encodeAll, List.append_assoc, List.append_assoc] at h
    obtain ⟨rfl, hafter⟩ := encode_append_inj item item' hfits.1 hfits'.1 hshort.1 hshort'.1 h
    obtain ⟨rfl, hrest⟩ := encodeAll_append_inj rest rest' (Nat.succ.inj hlength) hfits.2 hfits'.2
      hshort.2 hshort'.2 hafter
    exact ⟨rfl, hrest⟩
/-- The same for the fields of one layout. -/
theorem encodeFields_append_inj : ∀ (fields fields' : List (Bytes × Datum))
    {layout : List (Bytes × Shape)} {r r' : Bytes}, (∀ field ∈ layout, field.1.length < limit) →
    FitsFields layout fields → FitsFields layout fields' → ShortFields fields →
    ShortFields fields' → encodeFields fields ++ r = encodeFields fields' ++ r' →
    fields = fields' ∧ r = r' := by
  intro fields fields' layout r r' hnames hfits hfits' hshort hshort' h
  match layout, fields, fields' with
  | [], [], [] => exact ⟨rfl, h⟩
  | (name, shape) :: layout, (_, value) :: rest, (_, value') :: rest' =>
    rw [FitsFields] at hfits hfits'
    obtain ⟨rfl, hvalue, hrest⟩ := hfits
    obtain ⟨rfl, hvalue', hrest'⟩ := hfits'
    rw [ShortFields] at hshort hshort'
    rw [encodeFields, encodeFields] at h
    simp only [List.append_assoc] at h
    have hname := hnames _ List.mem_cons_self
    obtain ⟨-, hcontents⟩ := encodeText_append_inj hname hname h
    obtain ⟨rfl, hafter⟩ :=
      encode_append_inj value value' hvalue hvalue' hshort.1 hshort'.1 hcontents
    obtain ⟨rfl, hrest⟩ := encodeFields_append_inj rest rest'
      (fun field hfield => hnames field (List.mem_cons_of_mem _ hfield)) hrest hrest' hshort.2
      hshort'.2 hafter
    exact ⟨rfl, hrest⟩
end

end Datum

end BuildScript
