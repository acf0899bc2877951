import Quorum.Data.Octets

/-!
# BLAKE3

The 32-byte BLAKE3 hash, in its plain (unkeyed) mode. The input is cut into chunks of 1024 bytes,
which are the leaves of a binary tree whose left subtrees are complete; a chunk is a chain of
64-byte blocks.

* `Node` : the last compression of a chunk or of a parent, which yields either a chaining value
  for the parent above or the hash of the whole input;
* `chunk`, `parent`, `tree` : the nodes of the tree;
* `hash` : the hash of a byte string.
-/

namespace Quorum.Blake3

/-- The eight words of a chaining value. -/
abbrev Chain := Vector UInt32 8

/-- The sixteen words of a block or of the working state. -/
abbrev Block := Vector UInt32 16

/-- The initial chaining value. -/
def initial : Chain :=
  #v[0x6A09E667, 0xBB67AE85, 0x3C6EF372, 0xA54FF53A, 0x510E527F, 0x9B05688C, 0x1F83D9AB, 0x5BE0CD19]

/-- The block that starts a chunk. -/
def chunkStart : UInt32 := 1
/-- The block that ends a chunk. -/
def chunkEnd : UInt32 := 2
/-- The block of a parent. -/
def isParent : UInt32 := 4
/-- The compression that yields the hash. -/
def isRoot : UInt32 := 8

/-- The order in which a round takes the words of the previous one. -/
def permutation : Vector (Fin 16) 16 := #v[2, 6, 3, 10, 7, 0, 4, 13, 1, 11, 12, 5, 9, 14, 15, 8]

/-- Rotate a word right by `n` bits. -/
def rotr (x : UInt32) (n : UInt32) : UInt32 := (x >>> n) ||| (x <<< (32 - n))

/-- Mix two message words into one column or diagonal of the state. -/
def mix (v : Block) (a b c d : Fin 16) (x y : UInt32) : Block :=
  let va := v.get a + v.get b + x
  let vd := rotr (v.get d ^^^ va) 16
  let vc := v.get c + vd
  let vb := rotr (v.get b ^^^ vc) 12
  let va := va + vb + y
  let vd := rotr (vd ^^^ va) 8
  let vc := vc + vd
  let vb := rotr (vb ^^^ vc) 7
  (((v.set a va).set b vb).set c vc).set d vd

/-- Mix a block into the columns and then the diagonals of the state. -/
def round (v m : Block) : Block :=
  let v := mix v 0 4 8 12 m[0] m[1]
  let v := mix v 1 5 9 13 m[2] m[3]
  let v := mix v 2 6 10 14 m[4] m[5]
  let v := mix v 3 7 11 15 m[6] m[7]
  let v := mix v 0 5 10 15 m[8] m[9]
  let v := mix v 1 6 11 12 m[10] m[11]
  let v := mix v 2 7 8 13 m[12] m[13]
  mix v 3 4 9 14 m[14] m[15]

/-- `n` rounds, with the message words permuted in between. -/
def rounds : Nat → Block → Block → Block
  | 0, v, _ => v
  | n + 1, v, m => rounds n (round v m) (permutation.map m.get)

/-- What one compression takes: chaining value, block, number of the chunk, bytes in the block. -/
structure Node where
  chain : Chain
  block : Block
  counter : UInt64
  size : UInt32
  flags : UInt32

/-- The chaining value that a node yields under additional flags. -/
def Node.compress (n : Node) (flags : UInt32) : Chain :=
  let start : Block :=
    n.chain ++ #v[0x6A09E667, 0xBB67AE85, 0x3C6EF372, 0xA54FF53A,
      n.counter.toUInt32, (n.counter >>> 32).toUInt32, n.size, n.flags ||| flags]
  let v := rounds 7 start n.block
  Vector.ofFn fun i : Fin 8 =>
    v.get (i.castLE (by decide)) ^^^ v.get ((i.natAdd 8).cast rfl)

/-- The chaining value for the parent above. -/
def Node.chainingValue (n : Node) : Chain := n.compress 0

/-- Little-endian bytes as a word, with zeros for missing ones. -/
def word : Bytes → UInt32
  | a :: b :: c :: d :: _ =>
    a.toUInt32 ||| (b.toUInt32 <<< 8) ||| (c.toUInt32 <<< 16) ||| (d.toUInt32 <<< 24)
  | [a, b, c] => a.toUInt32 ||| (b.toUInt32 <<< 8) ||| (c.toUInt32 <<< 16)
  | [a, b] => a.toUInt32 ||| (b.toUInt32 <<< 8)
  | [a] => a.toUInt32
  | [] => 0

/-- `n` little-endian words, zero where the bytes have ended. -/
def words : Nat → Bytes → List UInt32
  | 0, _ => []
  | n + 1, bs => word bs :: words n (bs.drop 4)

theorem length_words (n : Nat) (bs : Bytes) : (words n bs).length = n := by
  induction n generalizing bs with
  | zero => rfl
  | succ n ih => simp [words, ih]

/-- Up to 64 bytes as a block, filled up with zeros. -/
def blockOf (bs : Bytes) : Block := ⟨(words 16 bs).toArray, by simp [length_words]⟩

/-- The chain of the blocks of a chunk, up to `fuel` full ones before the last. -/
def chunkBlocks (counter : UInt64) : Nat → Chain → UInt32 → Bytes → Node
  | 0, chain, start, bs =>
    ⟨chain, blockOf bs, counter, UInt32.ofNat bs.length, start ||| chunkEnd⟩
  | fuel + 1, chain, start, bs =>
    let (block, rest) := bs.splitAt 64
    if rest.isEmpty then
      ⟨chain, blockOf bs, counter, UInt32.ofNat bs.length, start ||| chunkEnd⟩
    else
      let node : Node := ⟨chain, blockOf block, counter, 64, start⟩
      chunkBlocks counter fuel node.chainingValue 0 rest

/-- The node of the chunk with the given number. -/
def chunk (counter : UInt64) (bs : Bytes) : Node := chunkBlocks counter 15 initial chunkStart bs

/-- The node above two others. -/
def parent (left right : Node) : Node :=
  ⟨initial, left.chainingValue ++ right.chainingValue, 0, 64, isParent⟩

/-- The node of at most `2 ^ level` chunks, the first of which has the given number. The left
half is complete as soon as the right one holds anything. -/
def tree : Nat → UInt64 → Bytes → Node
  | 0, counter, bs => chunk counter bs
  | level + 1, counter, bs =>
    let (left, right) := bs.splitAt (1024 <<< level)
    if right.isEmpty then tree level counter bs
    else parent (tree level counter left) (tree level (counter + (1 <<< UInt64.ofNat level)) right)

/-- The bytes of a word, least significant first. -/
def wordBytes (w : UInt32) : Bytes :=
  [w.toUInt8, (w >>> 8).toUInt8, (w >>> 16).toUInt8, (w >>> 24).toUInt8]

theorem length_flatMap_wordBytes (ws : List UInt32) :
    (ws.flatMap wordBytes).length = 4 * ws.length := by
  induction ws with
  | nil => rfl
  | cons w ws ih => simp [wordBytes, ih]; omega

/-- The hash of a byte string. -/
def hash (bs : Bytes) : Digest :=
  let words := (tree (Nat.log2 (bs.length / 1024 + 1) + 1) 0 bs).compress isRoot
  ⟨words.toList.flatMap wordBytes, by rw [length_flatMap_wordBytes, Vector.length_toList]; rfl⟩

end Quorum.Blake3
