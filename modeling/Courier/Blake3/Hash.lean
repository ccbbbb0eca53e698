import Courier.Blake3.Compression

/-!
# BLAKE3 of a byte string

The input is cut into chunks of 1024 bytes, each a chain of blocks of 64 bytes. The chunks are the
leaves of a binary tree whose left subtrees are full; the hash is the root's output. `Blake3.hash`
is the 32-byte hash.
-/

namespace Courier.Blake3

/-- Marks on the place of a compression in a chunk and in the tree. -/
def Flag.chunkStart : UInt32 := 1
@[inherit_doc Flag.chunkStart] def Flag.chunkEnd : UInt32 := 2
@[inherit_doc Flag.chunkStart] def Flag.parent : UInt32 := 4
@[inherit_doc Flag.chunkStart] def Flag.root : UInt32 := 8

/-- The `i`-th little-endian word of a block; bytes after its end are zero. -/
def wordAt (block : Array UInt8) (i : Nat) : UInt32 :=
  let byte (k : Nat) : UInt32 := (block.getD (4 * i + k) 0).toUInt32
  byte 0 ||| (byte 1 <<< 8) ||| (byte 2 <<< 16) ||| (byte 3 <<< 24)

def messageOfBytes (block : Bytes) : Message :=
  let a := block.toArray
  Vector.ofFn fun i => wordAt a i

/-- The compression of a block of a chunk. -/
def blockInput (index : Nat) (chaining : Chaining) (flags : UInt32) (block : Bytes) : Input where
  chaining
  block := messageOfBytes block
  counter := index.toUInt64
  length := block.length.toUInt32
  flags

/-- Chain the blocks of a chunk; the last compression is left to the caller, who knows whether it
is the root. -/
def chainBlocks (index : Nat) : Chaining → UInt32 → List Bytes → Input
  | chaining, flags, [] => blockInput index chaining (flags ||| Flag.chunkEnd) []
  | chaining, flags, [last] => blockInput index chaining (flags ||| Flag.chunkEnd) last
  | chaining, flags, block :: rest =>
    chainBlocks index (blockInput index chaining flags block).compress 0 rest

/-- The last compression of a chunk. -/
def chunkInput (index : Nat) (chunk : Bytes) : Input :=
  chainBlocks index Chaining.initial Flag.chunkStart (chunk.pieces 64)

/-- The compression that joins two subtrees. -/
def parentInput (left right : Chaining) : Input where
  chaining := Chaining.initial
  block := Vector.ofFn fun i => (left.words ++ right.words).getD i 0
  counter := 0
  length := 64
  flags := Flag.parent

/-- The last compression of a tree over at most `2 ^ level` chunks: the left subtree takes the
largest power of two of chunks that leaves at least one for the right subtree. -/
def treeInput : (level : Nat) → List (Bytes × Nat) → Input
  | 0, chunks =>
    match chunks with
    | [] => chunkInput 0 []
    | (chunk, index) :: _ => chunkInput index chunk
  | level + 1, chunks =>
    match chunks.drop (Nat.pow 2 level) with
    | [] => treeInput level chunks
    | right =>
      parentInput (treeInput level (chunks.take (Nat.pow 2 level))).compress
        (treeInput level right).compress

/-- The 32-byte BLAKE3 hash. -/
def hash (input : Bytes) : Bytes :=
  let chunks := (input.pieces 1024).zipIdx
  let last := treeInput chunks.length.log2.succ chunks
  let root : Input := { last with flags := last.flags ||| Flag.root }
  root.compress.words.flatMap fun w => Bytes.littleEndian 4 w.toNat

end Courier.Blake3
