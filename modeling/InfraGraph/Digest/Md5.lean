import InfraGraph.Digest.Blake3

/-!
# The MD5 hash

Used only to turn a path into a short name that stays the same across runs.
-/

namespace InfraGraph.Digest.Md5

/-- The words added in each of the 64 steps. -/
def addends : Array UInt32 :=
  #[0xd76aa478, 0xe8c7b756, 0x242070db, 0xc1bdceee, 0xf57c0faf, 0x4787c62a, 0xa8304613, 0xfd469501,
    0x698098d8, 0x8b44f7af, 0xffff5bb1, 0x895cd7be, 0x6b901122, 0xfd987193, 0xa679438e, 0x49b40821,
    0xf61e2562, 0xc040b340, 0x265e5a51, 0xe9b6c7aa, 0xd62f105d, 0x02441453, 0xd8a1e681, 0xe7d3fbc8,
    0x21e1cde6, 0xc33707d6, 0xf4d50d87, 0x455a14ed, 0xa9e3e905, 0xfcefa3f8, 0x676f02d9, 0x8d2a4c8a,
    0xfffa3942, 0x8771f681, 0x6d9d6122, 0xfde5380c, 0xa4beea44, 0x4bdecfa9, 0xf6bb4b60, 0xbebfbc70,
    0x289b7ec6, 0xeaa127fa, 0xd4ef3085, 0x04881d05, 0xd9d4d039, 0xe6db99e5, 0x1fa27cf8, 0xc4ac5665,
    0xf4292244, 0x432aff97, 0xab9423a7, 0xfc93a039, 0x655b59c3, 0x8f0ccc92, 0xffeff47d, 0x85845dd1,
    0x6fa87e4f, 0xfe2ce6e0, 0xa3014314, 0x4e0811a1, 0xf7537e82, 0xbd3af235, 0x2ad7d2bb, 0xeb86d391]

/-- The rotations of the four steps of each round. -/
def rotations : Array UInt32 :=
  #[7, 12, 17, 22, 5, 9, 14, 20, 4, 11, 16, 23, 6, 10, 15, 21]

/-- The four words of the state. -/
structure State where
  a : UInt32
  b : UInt32
  c : UInt32
  d : UInt32

/-- The state before the first block. -/
def State.initial : State := ⟨0x67452301, 0xefcdab89, 0x98badcfe, 0x10325476⟩

/-- One of the 64 steps on a block. -/
def step (block : Array UInt32) (s : State) (i : Nat) : State :=
  let round := i / 16
  let f :=
    if round = 0 then (s.b &&& s.c) ||| (~~~s.b &&& s.d)
    else if round = 1 then (s.d &&& s.b) ||| (~~~s.d &&& s.c)
    else if round = 2 then s.b ^^^ s.c ^^^ s.d
    else s.c ^^^ (s.b ||| ~~~s.d)
  let word :=
    if round = 0 then i
    else if round = 1 then (5 * i + 1) % 16
    else if round = 2 then (3 * i + 5) % 16
    else 7 * i % 16
  let sum := s.a + f + addends.getD i 0 + block.getD word 0
  let turn := rotations.getD (4 * round + i % 4) 0
  ⟨s.d, s.b + ((sum <<< turn) ||| (sum >>> (32 - turn))), s.b, s.c⟩

/-- Adds a block of 64 bytes to the state. -/
def absorb (contents : ByteArray) (s : State) (number : Nat) : State :=
  let block := Blake3.blockAt contents (64 * number)
  let t := (List.range 64).foldl (step block) s
  ⟨s.a + t.a, s.b + t.b, s.c + t.c, s.d + t.d⟩

/-- The contents followed by a one bit, zeros up to a multiple of 64 bytes, and their length in
bits. -/
def padded (contents : ByteArray) : ByteArray :=
  let zeros := (119 - contents.size % 64) % 64
  let bits := 8 * contents.size
  contents ++ ⟨#[0x80] ++ Array.replicate zeros 0 ++
    (Array.range 8).map fun i => UInt8.ofNat (bits / Nat.pow 256 i)⟩

/-- The 16 bytes of the hash of some contents. -/
def hash (contents : ByteArray) : List UInt8 :=
  let whole := padded contents
  let s := (List.range (whole.size / 64)).foldl (absorb whole) State.initial
  [s.a, s.b, s.c, s.d].flatMap Blake3.bytesOfWord

end InfraGraph.Digest.Md5
