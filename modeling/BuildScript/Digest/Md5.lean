import BuildScript.Digest.LittleEndian

/-!
# MD5

The message is closed by a one bit, zeros and its length in bits, and mixed block by block into a
state of four words.

* `Md5.digest`: the sixteen bytes of the digest.
-/

namespace BuildScript.Md5

/-- The state. -/
structure State where
  a : UInt32
  b : UInt32
  c : UInt32
  d : UInt32

/-- The state from which the digest starts. -/
def initial : State := ⟨0x67452301, 0xefcdab89, 0x98badcfe, 0x10325476⟩

/-- The constants of the 64 steps: the sines of 1, 2, 3, … as binary fractions. -/
def sines : List UInt32 :=
  [0xd76aa478, 0xe8c7b756, 0x242070db, 0xc1bdceee,
    0xf57c0faf, 0x4787c62a, 0xa8304613, 0xfd469501,
    0x698098d8, 0x8b44f7af, 0xffff5bb1, 0x895cd7be,
    0x6b901122, 0xfd987193, 0xa679438e, 0x49b40821,
    0xf61e2562, 0xc040b340, 0x265e5a51, 0xe9b6c7aa,
    0xd62f105d, 0x02441453, 0xd8a1e681, 0xe7d3fbc8,
    0x21e1cde6, 0xc33707d6, 0xf4d50d87, 0x455a14ed,
    0xa9e3e905, 0xfcefa3f8, 0x676f02d9, 0x8d2a4c8a,
    0xfffa3942, 0x8771f681, 0x6d9d6122, 0xfde5380c,
    0xa4beea44, 0x4bdecfa9, 0xf6bb4b60, 0xbebfbc70,
    0x289b7ec6, 0xeaa127fa, 0xd4ef3085, 0x04881d05,
    0xd9d4d039, 0xe6db99e5, 0x1fa27cf8, 0xc4ac5665,
    0xf4292244, 0x432aff97, 0xab9423a7, 0xfc93a039,
    0x655b59c3, 0x8f0ccc92, 0xffeff47d, 0x85845dd1,
    0x6fa87e4f, 0xfe2ce6e0, 0xa3014314, 0x4e0811a1,
    0xf7537e82, 0xbd3af235, 0x2ad7d2bb, 0xeb86d391]

/-- The rotations of the four rounds, which repeat after four steps. -/
def rotations : List (List UInt32) :=
  [[7, 12, 17, 22], [5, 9, 14, 20], [4, 11, 16, 23], [6, 10, 15, 21]]

/-- A word turned to the left by `n` bits. -/
def rotate (x n : UInt32) : UInt32 := (x <<< n) ||| (x >>> (32 - n))

/-- The function of three words that a step applies, and the number of the message word it takes. -/
def select (s : State) (i : Nat) : UInt32 × Nat :=
  if i < 16 then ((s.b &&& s.c) ||| ((s.b ^^^ 0xffffffff) &&& s.d), i)
  else if i < 32 then ((s.d &&& s.b) ||| ((s.d ^^^ 0xffffffff) &&& s.c), (5 * i + 1) % 16)
  else if i < 48 then (s.b ^^^ s.c ^^^ s.d, (3 * i + 5) % 16)
  else (s.c ^^^ (s.b ||| (s.d ^^^ 0xffffffff)), 7 * i % 16)

/-- One step. -/
def step (words : Array UInt32) (s : State) (step : UInt32 × Nat) : State :=
  let (sine, i) := step
  let (f, g) := select s i
  let turn := ((rotations.getD (i / 16) []).getD (i % 4) 0)
  ⟨s.d, s.b + rotate (s.a + f + sine + words.getD g 0) turn, s.b, s.c⟩

/-- Mixes a block of 64 bytes into the state. -/
def compress (s : State) (block : Bytes) : State :=
  let words := ((LittleEndian.chunks 4 block).map fun w => (LittleEndian.decode w).toUInt32).toArray
  let t := sines.zipIdx.foldl (step words) s
  ⟨s.a + t.a, s.b + t.b, s.c + t.c, s.d + t.d⟩

/-- The message with its closing bytes, a multiple of 64 bytes long. -/
def closed (s : Bytes) : Bytes :=
  s ++ 0x80 :: List.replicate ((119 - s.length % 64) % 64) 0 ++ LittleEndian.encode 8 (8 * s.length)

/-- The digest of a byte text. -/
def digest (s : Bytes) : Bytes :=
  let t := (LittleEndian.chunks 64 (closed s)).foldl compress initial
  [t.a, t.b, t.c, t.d].flatMap fun word => LittleEndian.encode 4 word.toNat

end BuildScript.Md5
