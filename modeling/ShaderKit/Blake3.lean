import ShaderKit.Bytes

/-!
# BLAKE3

The BLAKE3 hash of a byte string with its standard output of 32 bytes, without a key. The
input is cut into chunks of 1024 bytes and these into blocks of 64. The chunks are the leaves
of a binary tree in which each left subtree is full; the root is marked when the output is
taken.
-/

namespace ShaderKit.Blake3

abbrev Digest := Vector UInt8 32

abbrev Chaining := Vector UInt32 8

/-- The words of a block, and the state of the compression. -/
abbrev Block := Vector UInt32 16

def initial : Chaining :=
  #v[0x6a09e667, 0xbb67ae85, 0x3c6ef372, 0xa54ff53a, 0x510e527f, 0x9b05688c, 0x1f83d9ab,
    0x5be0cd19]

/-- The order in which the words of a block enter the next round. -/
def schedule : Vector (Fin 16) 16 := #v[2, 6, 3, 10, 7, 0, 4, 13, 1, 11, 12, 5, 9, 14, 15, 8]

/-- Domain flags. -/
def chunkStart : UInt32 := 1
def chunkEnd : UInt32 := 2
def parent : UInt32 := 4
def root : UInt32 := 8

def chunkLength : Nat := 1024
def blockLength : Nat := 64

def rotate (x n : UInt32) : UInt32 := (x >>> n) ||| (x <<< (32 - n))

def quarter (v : Block) (a b c d : Fin 16) (x y : UInt32) : Block :=
  let v := v.set a (v[a] + v[b] + x)
  let v := v.set d (rotate (v[d] ^^^ v[a]) 16)
  let v := v.set c (v[c] + v[d])
  let v := v.set b (rotate (v[b] ^^^ v[c]) 12)
  let v := v.set a (v[a] + v[b] + y)
  let v := v.set d (rotate (v[d] ^^^ v[a]) 8)
  let v := v.set c (v[c] + v[d])
  v.set b (rotate (v[b] ^^^ v[c]) 7)

/-- One round: the columns of the state, then its diagonals. -/
def round (v m : Block) : Block :=
  let v := quarter v 0 4 8 12 m[0] m[1]
  let v := quarter v 1 5 9 13 m[2] m[3]
  let v := quarter v 2 6 10 14 m[4] m[5]
  let v := quarter v 3 7 11 15 m[6] m[7]
  let v := quarter v 0 5 10 15 m[8] m[9]
  let v := quarter v 1 6 11 12 m[10] m[11]
  let v := quarter v 2 7 8 13 m[12] m[13]
  quarter v 3 4 9 14 m[14] m[15]

def rounds : Nat → Block → Block → Block
  | 0, v, _ => v
  | n + 1, v, m => rounds n (round v m) (schedule.map fun i => m[i])

structure Node where
  chaining : Chaining
  block : Block
  counter : Nat
  length : Nat
  flags : UInt32

namespace Node

/-- The eight output words of a node under additional flags. -/
def compress (n : Node) (extra : UInt32) : Chaining :=
  let h := n.chaining
  let v : Block :=
    #v[h[0], h[1], h[2], h[3], h[4], h[5], h[6], h[7], initial[0], initial[1], initial[2],
      initial[3], UInt32.ofNat n.counter, UInt32.ofNat (n.counter >>> 32),
      UInt32.ofNat n.length, n.flags ||| extra]
  let v := rounds 7 v n.block
  Vector.ofFn fun i : Fin 8 => v[i.val] ^^^ v[i.val + 8]

def join (left right : Node) : Node where
  chaining := initial
  block := left.compress 0 ++ right.compress 0
  counter := 0
  length := blockLength
  flags := parent

end Node

/-- The words of a block that may be short, filled up with zeros. -/
def blockWords (bytes : Bytes) : Block :=
  let words := (Bytes.toDwords (bytes ++ List.replicate (blockLength - bytes.length) 0)).toArray
  Vector.ofFn fun i => words.getD i.val 0

/-- The node of a chunk's last block, after the blocks before it. -/
def chunkNode (chaining : Chaining) (counter : Nat) (start : UInt32) (bytes : Bytes) : Node :=
  if bytes.length ≤ blockLength then
    ⟨chaining, blockWords bytes, counter, bytes.length, start ||| chunkEnd⟩
  else
    let n : Node := ⟨chaining, blockWords (bytes.take blockLength), counter, blockLength, start⟩
    chunkNode (n.compress 0) counter 0 (bytes.drop blockLength)
termination_by bytes.length
decreasing_by simp only [List.length_drop, blockLength] at *; omega

/-- How many of more than one chunk go into the left subtree: the largest power of two that
leaves something for the right one. -/
def leftChunks (length : Nat) : Nat := 1 <<< Nat.log2 ((length - 1) / chunkLength)

theorem leftChunks_lt {length : Nat} (h : chunkLength < length) :
    chunkLength * leftChunks length < length := by
  have hpos : (length - 1) / chunkLength ≠ 0 := by
    simp only [chunkLength] at *
    omega
  have hlog : leftChunks length ≤ (length - 1) / chunkLength := by
    rw [leftChunks, Nat.one_shiftLeft]
    exact Nat.log2_self_le hpos
  simp only [chunkLength] at *
  omega

theorem leftChunks_pos (length : Nat) : 0 < leftChunks length := by
  rw [leftChunks, Nat.one_shiftLeft]
  exact Nat.two_pow_pos _

/-- The root of the tree over a byte string whose first chunk has the given number. -/
def tree (counter : Nat) (bytes : Bytes) : Node :=
  if h : bytes.length ≤ chunkLength then chunkNode initial counter chunkStart bytes
  else
    let left := leftChunks bytes.length
    have := leftChunks_lt (Nat.lt_of_not_le h)
    have := leftChunks_pos bytes.length
    (tree counter (bytes.take (chunkLength * left))).join
      (tree (counter + left) (bytes.drop (chunkLength * left)))
termination_by bytes.length
decreasing_by
  · simp only [List.length_take, chunkLength] at *; omega
  · simp only [List.length_drop, chunkLength] at *; omega

def hash (bytes : Bytes) : Digest :=
  let words := (tree 0 bytes).compress root
  Vector.ofFn fun i : Fin 32 => UInt8.ofNat (words[i.val / 4].toNat >>> (8 * (i.val % 4)))

end ShaderKit.Blake3
