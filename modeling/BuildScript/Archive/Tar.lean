import BuildScript.Text.Bytes

/-!
# Tar archives

An archive is a row of blocks of 512 bytes: for each item a header and the contents filled up with
zeros, and two blocks of zeros at the end. A name that does not fit into the header stands in an
item of its own ahead of the one that it names.

* `Tar.encode`: the archive of some items.
* `Tar.decode?`: the items of an archive.
-/

namespace BuildScript.Tar

/-- A file or a directory in an archive; a directory has no contents and a name that ends in a
slash. -/
structure Item where
  name : Bytes
  data : Bytes
  deriving Repr, DecidableEq

/-- The size of a block. -/
def blockSize : Nat := 512

/-- The longest name that fits into a header. -/
def nameSize : Nat := 100

/-- A text filled up with zero bytes to `size` bytes; what goes beyond is cut off. -/
def fixed (size : Nat) (s : Bytes) : Bytes := s.take size ++ List.replicate (size - s.length) 0

/-- The octal numeral of a number with exactly `width` digits. -/
def octal : (width : Nat) → Nat → Bytes
  | 0, _ => []
  | width + 1, n => octal width (n / 8) ++ [(48 + n % 8).toUInt8]

/-- The number that an octal numeral stands for; what follows the digits does not count. -/
def ofOctal (s : Bytes) : Nat :=
  (s.takeWhile fun b => 48 ≤ b && b ≤ 55).foldl (fun n b => 8 * n + (b.toNat - 48)) 0

/-- What an item is. -/
inductive Kind where
  | file
  | directory
  /-- The name of the item that follows. -/
  | longName
  deriving Repr, DecidableEq

/-- The letter of a kind. -/
def Kind.letter : Kind → UInt8
  | file => 48
  | directory => 53
  | longName => 76

/-- The header of an item around its checksum. -/
def headerWith (sum name : Bytes) (kind : Kind) (size : Nat) : Bytes :=
  fixed nameSize name
    ++ fixed 8 (octal 7 (if kind = .directory then 0o755 else 0o644))
    ++ fixed 8 (octal 7 0) ++ fixed 8 (octal 7 0)
    ++ fixed 12 (octal 11 size) ++ fixed 12 (octal 11 0)
    ++ sum ++ [kind.letter] ++ fixed 100 []
    ++ fixed 6 (bytes "ustar") ++ bytes "00"
    ++ fixed 247 []

/-- The header of an item. Its checksum is the sum of its bytes with blanks for the checksum. -/
def header (name : Bytes) (kind : Kind) (size : Nat) : Bytes :=
  let total := (headerWith (List.replicate 8 32) name kind size).foldl (fun n b => n + b.toNat) 0
  headerWith (octal 6 total ++ [0, 32]) name kind size

/-- Contents filled up to whole blocks. -/
def body (data : Bytes) : Bytes :=
  data ++ List.replicate ((blockSize - data.length % blockSize) % blockSize) 0

/-- The blocks of an item. -/
def itemBlocks (item : Item) : Bytes :=
  let kind : Kind := if item.name.getLast? = some 47 then .directory else .file
  let named :=
    if item.name.length < nameSize then []
    else
      header (bytes "././@LongLink") .longName (item.name.length + 1) ++ body (item.name ++ [0])
  named ++ header item.name kind item.data.length ++ body item.data

/-- The archive of some items. -/
def encode (items : List Item) : Bytes :=
  items.flatMap itemBlocks ++ List.replicate (2 * blockSize) 0

/-- A text up to its first zero byte. -/
def untilZero (s : Bytes) : Bytes := s.takeWhile (· != 0)

/-- The items of an archive. `name?` is the name of the next one, if that stood in an item of its
own. The first argument bounds the number of items. -/
def items? : (limit : Nat) → (name? : Option Bytes) → Bytes → Option (List Item)
  | 0, _, _ => none
  | limit + 1, name?, s =>
    let head := s.take blockSize
    if head = [] || head.all (· == 0) then some []
    else if head.length < blockSize then none
    else
      let size := ofOctal ((head.drop 124).take 12)
      let data := (s.drop blockSize).take size
      let rest := s.drop (blockSize + (size + blockSize - 1) / blockSize * blockSize)
      if data.length < size then none
      else if head.getD 156 0 = Kind.longName.letter then items? limit (some (untilZero data)) rest
      else
        (items? limit none rest).map fun items =>
          ⟨name?.getD (untilZero (head.take nameSize)), data⟩ :: items

/-- The items of an archive. -/
def decode? (s : Bytes) : Option (List Item) := items? (s.length / blockSize + 1) none s

end BuildScript.Tar
