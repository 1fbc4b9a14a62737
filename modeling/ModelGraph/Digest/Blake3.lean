/-!
# The BLAKE3 digest

The unkeyed digest of 256 bits. A message is cut into chunks of 1024 bytes and a chunk into blocks
of 64; the chunks are the leaves of a binary tree whose left subtrees are full.

## Main definitions

- `Blake3.compress` — the compression function on sixteen words
- `Blake3.Node` — a node of the tree before its last compression
- `Blake3.digest` — the digest of a message
- `Blake3.hex` — the digest in hexadecimal
-/

namespace ModelGraph.Blake3

/-- Eight words: the state between compressions. -/
abbrev Chain := Vector UInt32 8

/-- Sixteen words: a block of message, and the state inside a compression. -/
abbrev Block := Vector UInt32 16

/-- The initial state. -/
def initial : Chain :=
  #v[0x6A09E667, 0xBB67AE85, 0x3C6EF372, 0xA54FF53A, 0x510E527F, 0x9B05688C, 0x1F83D9AB, 0x5BE0CD19]

/-- Marks of a compression, which add up. -/
def chunkStart : UInt32 := 1

@[inherit_doc chunkStart] def chunkEnd : UInt32 := 2

@[inherit_doc chunkStart] def parent : UInt32 := 4

@[inherit_doc chunkStart] def root : UInt32 := 8

/-- Rotates a word to the right. -/
def rotateRight (word count : UInt32) : UInt32 :=
  (word >>> count) ||| (word <<< (32 - count))

/-- Mixes two message words into four words of the state. -/
def mix (s : Block) (a b c d : Fin 16) (x y : UInt32) : Block :=
  let va := s[a] + s[b] + x
  let vd := rotateRight (s[d] ^^^ va) 16
  let vc := s[c] + vd
  let vb := rotateRight (s[b] ^^^ vc) 12
  let va := va + vb + y
  let vd := rotateRight (vd ^^^ va) 8
  let vc := vc + vd
  let vb := rotateRight (vb ^^^ vc) 7
  (((s.set a va).set b vb).set c vc).set d vd

/-- Mixes a block into the state: columns, then diagonals. -/
def round (s m : Block) : Block :=
  let s := mix s 0 4 8 12 m[0] m[1]
  let s := mix s 1 5 9 13 m[2] m[3]
  let s := mix s 2 6 10 14 m[4] m[5]
  let s := mix s 3 7 11 15 m[6] m[7]
  let s := mix s 0 5 10 15 m[8] m[9]
  let s := mix s 1 6 11 12 m[10] m[11]
  let s := mix s 2 7 8 13 m[12] m[13]
  mix s 3 4 9 14 m[14] m[15]

/-- The order of message words in the next round. -/
def permute (m : Block) : Block :=
  #v[m[2], m[6], m[3], m[10], m[7], m[0], m[4], m[13], m[1], m[11], m[12], m[5], m[9], m[14], m[15],
    m[8]]

/-- The given number of rounds. -/
def rounds : Nat → (s m : Block) → Block
  | 0, s, _ => s
  | n + 1, s, m => rounds n (round s m) (permute m)

/-- The compression function. -/
def compress (chain : Chain) (block : Block) (counter : Nat) (length marks : UInt32) : Block :=
  let low := UInt32.ofNat counter
  let high := UInt32.ofNat (counter / UInt32.size)
  let s := #v[chain[0], chain[1], chain[2], chain[3], chain[4], chain[5], chain[6], chain[7],
    initial[0], initial[1], initial[2], initial[3], low, high, length, marks]
  let s := rounds 7 s block
  #v[s[0] ^^^ s[8], s[1] ^^^ s[9], s[2] ^^^ s[10], s[3] ^^^ s[11], s[4] ^^^ s[12], s[5] ^^^ s[13],
    s[6] ^^^ s[14], s[7] ^^^ s[15], s[8] ^^^ chain[0], s[9] ^^^ chain[1], s[10] ^^^ chain[2],
    s[11] ^^^ chain[3], s[12] ^^^ chain[4], s[13] ^^^ chain[5], s[14] ^^^ chain[6],
    s[15] ^^^ chain[7]]

/-- The first half of a state. -/
def firstHalf (s : Block) : Chain :=
  #v[s[0], s[1], s[2], s[3], s[4], s[5], s[6], s[7]]

/-- The word that four bytes write, lowest first; missing bytes are zero. -/
def word (bytes : List UInt8) : UInt32 :=
  bytes.foldr (fun byte n => n <<< 8 ||| byte.toUInt32) 0

/-- The block that up to 64 bytes write. -/
def blockOf (bytes : List UInt8) : Block :=
  Vector.ofFn fun i : Fin 16 => word ((bytes.drop (4 * i)).take 4)

/-- The bytes of a word, lowest first. -/
def wordBytes (w : UInt32) : List UInt8 :=
  [w.toUInt8, (w >>> 8).toUInt8, (w >>> 16).toUInt8, (w >>> 24).toUInt8]

/-- Cuts a list into pieces of `count + 1` elements; the last piece may be shorter. -/
def pieces {α : Type} (count : Nat) (list : List α) : List (List α) :=
  match list with
  | [] => []
  | head :: rest => (head :: rest.take count) :: pieces count (rest.drop count)
termination_by list.length
decreasing_by simp only [List.length_drop, List.length_cons]; omega

/-- A node of the tree before its last compression. -/
structure Node where
  chain : Chain
  block : Block
  counter : Nat
  length : UInt32
  marks : UInt32

namespace Node

/-- The state that a node passes to its parent. -/
def output (node : Node) : Chain :=
  firstHalf (compress node.chain node.block node.counter node.length node.marks)

/-- The parent of two nodes. -/
def join (left right : Node) : Node where
  chain := initial
  block := left.output.append right.output
  counter := 0
  length := 64
  marks := parent

/-- The leaf of a chunk, from the state before its remaining blocks. -/
def ofBlocks (counter : Nat) (chain : Chain) (marks : UInt32) : List (List UInt8) → Node
  | [] => ⟨chain, blockOf [], counter, 0, marks ||| chunkEnd⟩
  | [last] => ⟨chain, blockOf last, counter, UInt32.ofNat last.length, marks ||| chunkEnd⟩
  | block :: rest =>
    ofBlocks counter (firstHalf (compress chain (blockOf block) counter 64 marks)) 0 rest

/-- The leaf of a chunk. -/
def ofChunk (counter : Nat) (bytes : List UInt8) : Node :=
  ofBlocks counter initial chunkStart (pieces 63 bytes)

/-- The tree over leaves: the left subtree has the largest power of two below their number. -/
def ofLeaves (leaf : Node) (leaves : List Node) : Node :=
  match leaves with
  | [] => leaf
  | next :: rest =>
    let left := Nat.pow 2 (rest.length + 1).log2
    match h : (leaf :: next :: rest).drop left with
    | [] => leaf
    | first :: others =>
      have hle : left ≤ rest.length + 1 := Nat.log2_self_le (by omega)
      have hpos : 0 < left := Nat.two_pow_pos _
      have hlen : others.length + 1 = rest.length + 2 - left := by
        simpa using (congrArg List.length h).symm
      join (ofLeaves leaf ((next :: rest).take (left - 1))) (ofLeaves first others)
termination_by leaves.length
decreasing_by
  · simp only [List.length_take, List.length_cons]; omega
  · simp only [List.length_cons]; omega

/-- The tree over a message. -/
def ofMessage (bytes : List UInt8) : Node :=
  match (pieces 1023 bytes).zipIdx.map fun (chunk, i) => ofChunk i chunk with
  | [] => ofChunk 0 []
  | leaf :: leaves => ofLeaves leaf leaves

end Node

/-- The digest of a message. -/
def digest (bytes : List UInt8) : List UInt8 :=
  let node := Node.ofMessage bytes
  let final := compress node.chain node.block 0 node.length (node.marks ||| root)
  (firstHalf final).toList.flatMap wordBytes

/-- A byte as two hexadecimal digits. -/
def hexByte (byte : UInt8) : List Char :=
  let digit (n : Nat) : Char := "0123456789abcdef".toList.getD n '0'
  [digit (byte.toNat / 16), digit (byte.toNat % 16)]

/-- The digest of a message in hexadecimal. -/
def hex (bytes : List UInt8) : String :=
  String.ofList ((digest bytes).flatMap hexByte)

end ModelGraph.Blake3
