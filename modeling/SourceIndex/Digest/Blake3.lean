import SourceIndex.Bytes

/-!
# BLAKE3

The plain 32-byte BLAKE3 hash.  The input is cut into chunks of 1024 bytes and a
chunk into blocks of 64; blocks are chained by the compression function, and the
chunks are the leaves of a binary tree whose left subtrees are as large as they
can be.  Only the node at the top is compressed with the root mark.
-/

namespace SourceIndex
namespace Blake3

/-- Words of the state, of a block or of a chaining value. -/
abbrev Words := Array UInt32

/-- The words a hash starts from. -/
def initial : Words :=
  #[0x6a09e667, 0xbb67ae85, 0x3c6ef372, 0xa54ff53a, 0x510e527f, 0x9b05688c, 0x1f83d9ab, 0x5be0cd19]

/-- How the words of a block are reordered between rounds. -/
def permutation : Array Nat :=
  #[2, 6, 3, 10, 7, 0, 4, 13, 1, 11, 12, 5, 9, 14, 15, 8]

/-- Marks the first block of a chunk. -/
def chunkStart : UInt32 := 1

/-- Marks the last block of a chunk. -/
def chunkEnd : UInt32 := 2

/-- Marks an inner node of the tree. -/
def parentMark : UInt32 := 4

/-- Marks the node at the top of the tree. -/
def rootMark : UInt32 := 8

/-- A word turned to the right by `count` bits. -/
def rotateRight (word : UInt32) (count : UInt32) : UInt32 :=
  (word >>> count) ||| (word <<< (32 - count))

/-- One quarter of a round: mixes two words of the block into four words of the
state. -/
def mix (state : Words) (a b c d : Nat) (x y : UInt32) : Words :=
  let va := state.getD a 0 + state.getD b 0 + x
  let vd := rotateRight (state.getD d 0 ^^^ va) 16
  let vc := state.getD c 0 + vd
  let vb := rotateRight (state.getD b 0 ^^^ vc) 12
  let va := va + vb + y
  let vd := rotateRight (vd ^^^ va) 8
  let vc := vc + vd
  let vb := rotateRight (vb ^^^ vc) 7
  (((state.setIfInBounds a va).setIfInBounds b vb).setIfInBounds c vc).setIfInBounds d vd

/-- One round: the columns of the state, then its diagonals. -/
def round (state block : Words) : Words :=
  let word (i : Nat) : UInt32 := block.getD i 0
  let state := mix state 0 4 8 12 (word 0) (word 1)
  let state := mix state 1 5 9 13 (word 2) (word 3)
  let state := mix state 2 6 10 14 (word 4) (word 5)
  let state := mix state 3 7 11 15 (word 6) (word 7)
  let state := mix state 0 5 10 15 (word 8) (word 9)
  let state := mix state 1 6 11 12 (word 10) (word 11)
  let state := mix state 2 7 8 13 (word 12) (word 13)
  mix state 3 4 9 14 (word 14) (word 15)

/-- The words of a block in the order of the next round. -/
def permute (block : Words) : Words :=
  permutation.map fun i => block.getD i 0

/-- Several rounds, the block being reordered in between. -/
def rounds : (count : Nat) → (state block : Words) → Words
  | 0, state, _ => state
  | count + 1, state, block => rounds count (round state block) (permute block)

/-- A block that is still to be compressed. -/
structure Node where
  chaining : Words
  block : Words
  counter : Nat
  size : Nat
  marks : UInt32

/-- The first half of the compressed node. -/
def Node.compress (node : Node) : Words :=
  let low := UInt32.ofNat node.counter
  let high := UInt32.ofNat (node.counter / 0x100000000)
  let start := node.chaining ++ initial.extract 0 4 ++ #[low, high, UInt32.ofNat node.size, node.marks]
  let final := rounds 7 start node.block
  (Array.range 8).map fun i => final.getD i 0 ^^^ final.getD (i + 8) 0

/-- Little-endian words of bytes. -/
def wordsOfBytes : Bytes → List UInt32
  | a :: b :: c :: d :: rest =>
    (a.toUInt32 ||| (b.toUInt32 <<< 8) ||| (c.toUInt32 <<< 16) ||| (d.toUInt32 <<< 24)) ::
      wordsOfBytes rest
  | _ => []

/-- The sixteen words of a block, filled up with zeros. -/
def blockWords (bytes : Bytes) : Words :=
  (wordsOfBytes (bytes ++ List.replicate (64 - bytes.length) 0)).toArray

/-- Groups of `size` items; the last one may be shorter, and there is at least
one.  `room` items still fit into the current group, which is given in reverse. -/
def groups (size room : Nat) (current : Bytes) : Bytes → List Bytes
  | [] => [current.reverse]
  | b :: rest =>
    if room = 0 then current.reverse :: groups size (size - 1) [b] rest
    else groups size (room - 1) (b :: current) rest

/-- The last block of a chunk after the blocks before it have been chained. -/
def chainBlocks (counter : Nat) (chaining : Words) (marks : UInt32) : List Bytes → Node
  | [] => { chaining, block := blockWords [], counter, size := 0, marks := marks ||| chunkEnd }
  | [last] =>
    { chaining, block := blockWords last, counter, size := last.length, marks := marks ||| chunkEnd }
  | block :: rest =>
    let node : Node := { chaining, block := blockWords block, counter, size := block.length, marks }
    chainBlocks counter node.compress 0 rest

/-- The node of the chunk at position `counter`. -/
def chunkNode (counter : Nat) (chunk : Bytes) : Node :=
  chainBlocks counter initial chunkStart (groups 64 64 [] chunk)

/-- The node above two subtrees. -/
def parentNode (left right : Words) : Node :=
  { chaining := initial, block := left ++ right, counter := 0, size := 64, marks := parentMark }

/-- Adds the chaining value of a chunk to the finished subtrees, smallest first,
when there are `total` chunks with it: as long as two subtrees have the same
size they are joined. -/
def addChunk (total : Nat) (value : Words) : List Words → List Words
  | [] => [value]
  | top :: rest =>
    if total % 2 = 0 then addChunk (total / 2) (parentNode top value).compress rest
    else value :: top :: rest

/-- The node at the top of the tree, from the finished subtrees on. -/
def topNode (counter : Nat) (subtrees : List Words) : List Bytes → Node
  | [] => chunkNode counter []
  | [last] => subtrees.foldl (fun node left => parentNode left node.compress) (chunkNode counter last)
  | chunk :: rest =>
    topNode (counter + 1) (addChunk (counter + 1) (chunkNode counter chunk).compress subtrees) rest

/-- The 32-byte hash of `bytes`. -/
def hash (bytes : Bytes) : Bytes :=
  let top := topNode 0 [] (groups 1024 1024 [] bytes)
  let words := Node.compress { top with counter := 0, marks := top.marks ||| rootMark }
  words.toList.flatMap fun word => Bytes.littleEndian 4 word.toNat

end Blake3
end SourceIndex
