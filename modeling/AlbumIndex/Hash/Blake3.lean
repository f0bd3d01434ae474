/-!
# The BLAKE3 hash

The hash works on 64-byte blocks, which fill chunks of 1024 bytes; the chunks are the leaves of a
binary tree in which the left side is as large as a power of two allows.  Each block is compressed
into eight 32-bit words by seven rounds of mixing, with flags that say where in its chunk and in the
tree it stands.

## Main definitions

* `compress` — the compression of a block.
* `chunkNode` — the last block of a chunk, before its compression.
* `rootWords` — the hash of a text of bytes, as eight words.
-/

namespace AlbumIndex
namespace Blake3

/-! ### Words -/

def initial : Array UInt32 :=
  #[0x6A09E667, 0xBB67AE85, 0x3C6EF372, 0xA54FF53A, 0x510E527F, 0x9B05688C, 0x1F83D9AB, 0x5BE0CD19]

/-- A word with its bits turned to the right. -/
def rotateRight (x : UInt32) (n : UInt32) : UInt32 := (x >>> n) ||| (x <<< (32 - n))

/-- The words of a block, each with its lowest byte first; missing bytes are zero. -/
def blockWords (block : List UInt8) : Array UInt32 :=
  (List.range 16).toArray.map fun i =>
    let byte (j : Nat) : UInt32 := (block.getD (4 * i + j) 0).toUInt32
    byte 0 ||| (byte 1 <<< 8) ||| (byte 2 <<< 16) ||| (byte 3 <<< 24)

/-! ### Compression -/

/-- The flag of the first block of a chunk. -/
def flagChunkStart : UInt32 := 1

/-- The flag of the last block of a chunk. -/
def flagChunkEnd : UInt32 := 2

/-- The flag of a block that joins two sides of the tree. -/
def flagParent : UInt32 := 4

/-- The flag of the block at the top of the tree. -/
def flagRoot : UInt32 := 8

/-- One step of mixing: two message words go into four words of the state. -/
def mix (s : Array UInt32) (a b c d : Nat) (x y : UInt32) : Array UInt32 :=
  let va := s.getD a 0 + s.getD b 0 + x
  let vd := rotateRight (s.getD d 0 ^^^ va) 16
  let vc := s.getD c 0 + vd
  let vb := rotateRight (s.getD b 0 ^^^ vc) 12
  let va := va + vb + y
  let vd := rotateRight (vd ^^^ va) 8
  let vc := vc + vd
  let vb := rotateRight (vb ^^^ vc) 7
  (((s.setIfInBounds a va).setIfInBounds b vb).setIfInBounds c vc).setIfInBounds d vd

/-- The places of the state that the eight steps of a round mix: its columns and its diagonals. -/
def roundPlaces : List (Nat × Nat × Nat × Nat) :=
  [(0, 4, 8, 12), (1, 5, 9, 13), (2, 6, 10, 14), (3, 7, 11, 15),
   (0, 5, 10, 15), (1, 6, 11, 12), (2, 7, 8, 13), (3, 4, 9, 14)]

/-- One round: the message words go in two by two. -/
def mixRound (s m : Array UInt32) : Array UInt32 :=
  (roundPlaces.zipIdx).foldl
    (fun s ((a, b, c, d), i) => mix s a b c d (m.getD (2 * i) 0) (m.getD (2 * i + 1) 0)) s

/-- The order in which the next round takes the message words. -/
def nextOrder : Array Nat := #[2, 6, 3, 10, 7, 0, 4, 13, 1, 11, 12, 5, 9, 14, 15, 8]

/-- The message words in the order of the next round. -/
def reorder (m : Array UInt32) : Array UInt32 := nextOrder.map fun i => m.getD i 0

/-- So many rounds, with the message words reordered in between. -/
def mixRounds : Nat → Array UInt32 → Array UInt32 → Array UInt32
  | 0, s, _ => s
  | n + 1, s, m => mixRounds n (mixRound s m) (reorder m)

/-- A block that is ready to be compressed. -/
structure Node where
  /-- The chaining value that it starts from. -/
  chain : Array UInt32
  words : Array UInt32
  counter : UInt64
  /-- The number of its bytes. -/
  size : UInt32
  flags : UInt32

/-- The eight words that a block is compressed into. -/
def compress (n : Node) (flags : UInt32) : Array UInt32 :=
  let start := n.chain ++ initial.extract 0 4 ++
    #[n.counter.toUInt32, (n.counter >>> 32).toUInt32, n.size, n.flags ||| flags]
  let s := mixRounds 7 start n.words
  (List.range 8).toArray.map fun i => s.getD i 0 ^^^ s.getD (i + 8) 0

/-! ### Chunks and the tree -/

/-- The last block of a chunk, when `count` further blocks may follow the present one. -/
def chunkNode (counter : UInt64) : Nat → Array UInt32 → UInt32 → List UInt8 → Node
  | 0, chain, flags, bytes => ⟨chain, blockWords bytes, counter, 0, flags ||| flagChunkEnd⟩
  | count + 1, chain, flags, bytes =>
    let block := bytes.take 64
    let rest := bytes.drop 64
    let node : Node := ⟨chain, blockWords block, counter, block.length.toUInt32, flags⟩
    if rest.isEmpty then { node with flags := flags ||| flagChunkEnd }
    else chunkNode counter count (compress node 0) 0 rest

/-- The chunk of so many bytes, as its last block. -/
def chunk (counter : UInt64) (bytes : List UInt8) : Node :=
  chunkNode counter 16 initial flagChunkStart bytes

/-- The block that joins the two sides of a tree. -/
def parent (left right : Array UInt32) : Node := ⟨initial, left ++ right, 0, 64, flagParent⟩

/-- The chunks of the left side of a tree over `count` chunks: the largest power of two that leaves
something for the right side. -/
def leftChunks (count : Nat) : Nat := Nat.pow 2 (Nat.log2 (count - 1))

/-- The top block of the tree over chunks that begin with number `first`; `depth` bounds the height
of the tree. -/
def tree : Nat → Nat → List UInt8 → Node
  | 0, first, bytes => chunk first.toUInt64 bytes
  | depth + 1, first, bytes =>
    if bytes.length ≤ 1024 then chunk first.toUInt64 bytes
    else
      let left := leftChunks ((bytes.length + 1023) / 1024)
      parent (compress (tree depth first (bytes.take (1024 * left))) 0)
        (compress (tree depth (first + left) (bytes.drop (1024 * left))) 0)

/-- The hash of a text of bytes.  The height of its tree is below the number of bits of its
length. -/
def rootWords (bytes : List UInt8) : Array UInt32 :=
  compress (tree (Nat.log2 bytes.length + 1) 0 bytes) flagRoot

/-- The first four bytes of the hash, read with the lowest byte first. -/
def firstWord (bytes : List UInt8) : UInt32 := (rootWords bytes).getD 0 0

end Blake3
end AlbumIndex
