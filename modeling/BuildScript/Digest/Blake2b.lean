import BuildScript.Digest.LittleEndian

/-!
# BLAKE2b with a digest of 32 bytes

The message is cut into blocks of 128 bytes, the last one filled up with zeros. Each block is mixed
into a state of eight words in twelve rounds, in which the words of the block are taken in the order
of a schedule.

* `Blake2b.digest`: the digest of a byte text, without a key.
-/

namespace BuildScript.Blake2b

/-- Sixteen words of 64 bits. -/
abbrev Block := Vector UInt64 16

/-- The words from which the state starts. -/
def initial : Vector UInt64 8 :=
  #v[0x6a09e667f3bcc908, 0xbb67ae8584caa73b, 0x3c6ef372fe94f82b, 0xa54ff53a5f1d36f1,
    0x510e527fade682d1, 0x9b05688c2b3e6c1f, 0x1f83d9abfb41bd6b, 0x5be0cd19137e2179]

/-- The order of the words of a block in ten rounds. -/
def orders : List (Vector (Fin 16) 16) :=
  [#v[0, 1, 2, 3, 4, 5, 6, 7, 8, 9, 10, 11, 12, 13, 14, 15],
    #v[14, 10, 4, 8, 9, 15, 13, 6, 1, 12, 0, 2, 11, 7, 5, 3],
    #v[11, 8, 12, 0, 5, 2, 15, 13, 10, 14, 3, 6, 7, 1, 9, 4],
    #v[7, 9, 3, 1, 13, 12, 11, 14, 2, 6, 5, 10, 4, 0, 15, 8],
    #v[9, 0, 5, 7, 2, 4, 10, 15, 14, 1, 11, 12, 6, 8, 3, 13],
    #v[2, 12, 6, 10, 0, 11, 8, 3, 4, 13, 7, 5, 15, 14, 1, 9],
    #v[12, 5, 1, 15, 14, 13, 4, 10, 0, 7, 6, 3, 9, 2, 8, 11],
    #v[13, 11, 7, 14, 12, 1, 3, 9, 5, 0, 15, 4, 8, 6, 2, 10],
    #v[6, 15, 14, 9, 11, 3, 0, 8, 12, 2, 13, 7, 1, 4, 10, 5],
    #v[10, 2, 8, 4, 7, 6, 1, 5, 15, 11, 9, 14, 3, 12, 13, 0]]

/-- The orders of all twelve rounds: after the tenth they start again. -/
def schedule : List (Vector (Fin 16) 16) := orders ++ orders.take 2

/-- A word turned to the right by `n` bits. -/
def rotate (x : UInt64) (n : UInt64) : UInt64 := (x >>> n) ||| (x <<< (64 - n))

/-- Mixes two words of the message into four words of the state. -/
def mix (v : Block) (a b c d : Fin 16) (x y : UInt64) : Block :=
  let v := v.set a (v[a] + v[b] + x)
  let v := v.set d (rotate (v[d] ^^^ v[a]) 32)
  let v := v.set c (v[c] + v[d])
  let v := v.set b (rotate (v[b] ^^^ v[c]) 24)
  let v := v.set a (v[a] + v[b] + y)
  let v := v.set d (rotate (v[d] ^^^ v[a]) 16)
  let v := v.set c (v[c] + v[d])
  v.set b (rotate (v[b] ^^^ v[c]) 63)

/-- One round: the columns of the state, then its diagonals. -/
def round (m : Block) (v : Block) (s : Vector (Fin 16) 16) : Block :=
  let v := mix v 0 4 8 12 m[s[0]] m[s[1]]
  let v := mix v 1 5 9 13 m[s[2]] m[s[3]]
  let v := mix v 2 6 10 14 m[s[4]] m[s[5]]
  let v := mix v 3 7 11 15 m[s[6]] m[s[7]]
  let v := mix v 0 5 10 15 m[s[8]] m[s[9]]
  let v := mix v 1 6 11 12 m[s[10]] m[s[11]]
  let v := mix v 2 7 8 13 m[s[12]] m[s[13]]
  mix v 3 4 9 14 m[s[14]] m[s[15]]

/-- Mixes a block into the state. `count` is the number of bytes of the message up to the end of the
block, and `last` tells whether it is the last block. -/
def compress (h : Vector UInt64 8) (m : Block) (count : Nat) (last : Bool) : Vector UInt64 8 :=
  let v : Block := h ++ initial
  let v := v.set 12 (v[12] ^^^ count.toUInt64)
  let v := v.set 13 (v[13] ^^^ (count / Nat.pow 2 64).toUInt64)
  let v := if last then v.set 14 (v[14] ^^^ 0xffffffffffffffff) else v
  let v := schedule.foldl (round m) v
  Vector.ofFn fun i => h[i] ^^^ v[i.val] ^^^ v[i.val + 8]

/-- The words of up to 128 bytes, filled up with zeros. -/
def block (s : Bytes) : Block :=
  let words := (LittleEndian.chunks 8 (LittleEndian.padded 128 s)).map fun word =>
    (LittleEndian.decode word).toUInt64
  Vector.ofFn fun i => words.getD i.val 0

/-- Mixes blocks into the state, of which `count` bytes went before. -/
def absorb (h : Vector UInt64 8) (count : Nat) : List Bytes → Vector UInt64 8
  | [] => h
  | s :: rest =>
    let count := count + s.length
    absorb (compress h (block s) count rest.isEmpty) count rest

/-- The digest of a byte text. -/
def digest (s : Bytes) : Bytes :=
  let start := initial.set 0 (initial[0] ^^^ 0x01010020)
  let blocks := if s = [] then [[]] else LittleEndian.chunks 128 s
  ((absorb start 0 blocks).toList.flatMap fun word => LittleEndian.encode 8 word.toNat).take 32

end BuildScript.Blake2b
