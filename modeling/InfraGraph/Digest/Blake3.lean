/-!
# The BLAKE3 hash

Contents are cut into chunks of 1024 bytes, each chunk into blocks of 64 bytes.  A chunk is
compressed block by block, and the chunks are joined pairwise by a binary tree whose left part is
the largest power of two of chunks that leaves something for the right part.
-/

namespace InfraGraph.Digest.Blake3

/-- The initial words. -/
def initial : Array UInt32 :=
  #[0x6A09E667, 0xBB67AE85, 0x3C6EF372, 0xA54FF53A, 0x510E527F, 0x9B05688C, 0x1F83D9AB, 0x5BE0CD19]

/-- The order in which the words of a block are used by each of the seven rounds. -/
def schedule : List (Array Nat) :=
  [#[0, 1, 2, 3, 4, 5, 6, 7, 8, 9, 10, 11, 12, 13, 14, 15],
   #[2, 6, 3, 10, 7, 0, 4, 13, 1, 11, 12, 5, 9, 14, 15, 8],
   #[3, 4, 10, 12, 13, 2, 7, 14, 6, 5, 9, 0, 11, 15, 8, 1],
   #[10, 7, 12, 9, 14, 3, 13, 15, 4, 0, 11, 2, 5, 8, 1, 6],
   #[12, 13, 9, 11, 15, 10, 14, 8, 7, 2, 5, 3, 0, 1, 6, 4],
   #[9, 14, 11, 5, 8, 12, 15, 1, 13, 3, 0, 10, 2, 6, 4, 7],
   #[11, 15, 5, 0, 1, 9, 8, 6, 14, 10, 2, 12, 3, 4, 7, 13]]

/-- Marks the first block of a chunk. -/
def chunkStart : UInt32 := 1

/-- Marks the last block of a chunk. -/
def chunkEnd : UInt32 := 2

/-- Marks a node that joins two subtrees. -/
def parentMark : UInt32 := 4

/-- Marks the last compression of all. -/
def rootMark : UInt32 := 8

/-- A word rotated to the right. -/
def rotateRight (x : UInt32) (n : UInt32) : UInt32 :=
  (x >>> n) ||| (x <<< (32 - n))

/-- Mixes two words of the block into four words of the state. -/
def mix (v : Array UInt32) (a b c d : Nat) (x y : UInt32) : Array UInt32 :=
  let va := v.getD a 0 + v.getD b 0 + x
  let vd := rotateRight (v.getD d 0 ^^^ va) 16
  let vc := v.getD c 0 + vd
  let vb := rotateRight (v.getD b 0 ^^^ vc) 12
  let va := va + vb + y
  let vd := rotateRight (vd ^^^ va) 8
  let vc := vc + vd
  let vb := rotateRight (vb ^^^ vc) 7
  (((v.setIfInBounds a va).setIfInBounds b vb).setIfInBounds c vc).setIfInBounds d vd

/-- One round: the columns of the state, then its diagonals. -/
def round (block : Array UInt32) (v : Array UInt32) (order : Array Nat) : Array UInt32 :=
  let word (i : Nat) : UInt32 := block.getD (order.getD i 0) 0
  let v := mix v 0 4 8 12 (word 0) (word 1)
  let v := mix v 1 5 9 13 (word 2) (word 3)
  let v := mix v 2 6 10 14 (word 4) (word 5)
  let v := mix v 3 7 11 15 (word 6) (word 7)
  let v := mix v 0 5 10 15 (word 8) (word 9)
  let v := mix v 1 6 11 12 (word 10) (word 11)
  let v := mix v 2 7 8 13 (word 12) (word 13)
  mix v 3 4 9 14 (word 14) (word 15)

/-- The input of one compression. -/
structure Node where
  chaining : Array UInt32
  block : Array UInt32
  counter : UInt64
  length : UInt32
  marks : UInt32

/-- The eight words that a compression hands on. -/
def Node.compress (n : Node) (marks : UInt32) : Array UInt32 :=
  let state := n.chaining ++ initial.extract 0 4 ++
    #[n.counter.toUInt32, (n.counter >>> 32).toUInt32, n.length, n.marks ||| marks]
  let mixed := schedule.foldl (round n.block) state
  (Array.range 8).map fun i => mixed.getD i 0 ^^^ mixed.getD (i + 8) 0

/-- The byte at a place, zero behind the end. -/
def byteAt (contents : ByteArray) (i : Nat) : UInt8 :=
  if h : i < contents.size then contents[i] else 0

/-- The little-endian word at a place. -/
def wordAt (contents : ByteArray) (i : Nat) : UInt32 :=
  (byteAt contents i).toUInt32 ||| ((byteAt contents (i + 1)).toUInt32 <<< 8) |||
    ((byteAt contents (i + 2)).toUInt32 <<< 16) ||| ((byteAt contents (i + 3)).toUInt32 <<< 24)

/-- The words of the block that starts at a place.  Behind the end of the contents they are
zero. -/
def blockAt (contents : ByteArray) (start : Nat) : Array UInt32 :=
  (Array.range 16).map fun i => wordAt contents (start + 4 * i)

/-- Compresses the blocks of a chunk up to its last one, which is left for the caller.  `blocks`
counts the blocks that remain. -/
def chunkBlocks (contents : ByteArray) (finish : Nat) (counter : UInt64) :
    (blocks start : Nat) → (marks : UInt32) → (chaining : Array UInt32) → Node
  | 0, start, marks, chaining =>
    ⟨chaining, blockAt contents start, counter, UInt32.ofNat (finish - start), marks ||| chunkEnd⟩
  | blocks + 1, start, marks, chaining =>
    let node : Node := ⟨chaining, blockAt contents start, counter, 64, marks⟩
    chunkBlocks contents finish counter blocks (start + 64) 0 (node.compress 0)

/-- The last compression of the chunk with a number. -/
def chunk (contents : ByteArray) (number : Nat) : Node :=
  let start := 1024 * number
  let finish := min contents.size (start + 1024)
  chunkBlocks contents finish (UInt64.ofNat number) ((finish - start - 1) / 64) start chunkStart
    initial

/-- The last compression of a run of chunks.  Each level of the tree takes one unit of `levels`,
for which the number of chunks is enough. -/
def subtree (contents : ByteArray) : (levels first count : Nat) → Node
  | 0, first, _ => chunk contents first
  | levels + 1, first, count =>
    if count ≤ 1 then chunk contents first
    else
      let left := 1 <<< (count - 1).log2
      let l := (subtree contents levels first left).compress 0
      let r := (subtree contents levels (first + left) (count - left)).compress 0
      ⟨initial, l ++ r, 0, 64, parentMark⟩

/-- The four bytes of a word, the low one first. -/
def bytesOfWord (w : UInt32) : List UInt8 :=
  [w.toUInt8, (w >>> 8).toUInt8, (w >>> 16).toUInt8, (w >>> 24).toUInt8]

/-- The 32 bytes of the hash of some contents. -/
def hash (contents : ByteArray) : List UInt8 :=
  let count := max 1 ((contents.size + 1023) / 1024)
  ((subtree contents count 0 count).compress rootMark).toList.flatMap bytesOfWord

end InfraGraph.Digest.Blake3
