import Adjudication.Bytes

namespace Adjudication.Blake3

abbrev Words (n : Nat) := Vector UInt32 n

def iv : Words 8 :=
  #v[0x6a09e667, 0xbb67ae85, 0x3c6ef372, 0xa54ff53a, 0x510e527f, 0x9b05688c, 0x1f83d9ab, 0x5be0cd19]

def chunkStart : UInt32 := 1
def chunkEnd : UInt32 := 2
def parent : UInt32 := 4
def root : UInt32 := 8

@[inline] def rotr (x n : UInt32) : UInt32 := (x >>> n) ||| (x <<< (32 - n))

/-- The quarter round on four state words and two message words. -/
def mix (v : Words 16) (a b c d : Fin 16) (x y : UInt32) : Words 16 :=
  let va := v[a] + v[b] + x
  let vd := rotr (v[d] ^^^ va) 16
  let vc := v[c] + vd
  let vb := rotr (v[b] ^^^ vc) 12
  let va := va + vb + y
  let vd := rotr (vd ^^^ va) 8
  let vc := vc + vd
  let vb := rotr (vb ^^^ vc) 7
  (((v.set a va).set b vb).set c vc).set d vd

def round (v m : Words 16) : Words 16 :=
  let v := mix v 0 4 8 12 m[0] m[1]
  let v := mix v 1 5 9 13 m[2] m[3]
  let v := mix v 2 6 10 14 m[4] m[5]
  let v := mix v 3 7 11 15 m[6] m[7]
  let v := mix v 0 5 10 15 m[8] m[9]
  let v := mix v 1 6 11 12 m[10] m[11]
  let v := mix v 2 7 8 13 m[12] m[13]
  mix v 3 4 9 14 m[14] m[15]

def permute (m : Words 16) : Words 16 :=
  #v[m[2], m[6], m[3], m[10], m[7], m[0], m[4], m[13], m[1], m[11], m[12], m[5], m[9], m[14], m[15],
    m[8]]

def rounds : Nat → Words 16 → Words 16 → Words 16
  | 0, v, _ => v
  | n + 1, v, m => rounds n (round v m) (permute m)

/-- One block folded into a chaining value; the result is the next chaining value. -/
def compress (cv : Words 8) (m : Words 16) (counter : Nat) (size : Nat) (flags : UInt32) : Words 8 :=
  let v : Words 16 := #v[cv[0], cv[1], cv[2], cv[3], cv[4], cv[5], cv[6], cv[7],
    iv[0], iv[1], iv[2], iv[3], UInt32.ofNat counter, UInt32.ofNat (counter / UInt32.size),
    UInt32.ofNat size, flags]
  let v := rounds 7 v m
  #v[v[0] ^^^ v[8], v[1] ^^^ v[9], v[2] ^^^ v[10], v[3] ^^^ v[11],
    v[4] ^^^ v[12], v[5] ^^^ v[13], v[6] ^^^ v[14], v[7] ^^^ v[15]]

def wordAt (bs : Bytes) : UInt32 := UInt32.ofNat (ofLittleEndian (bs.take 4))

/-- Sixteen words of a block, zeros where its bytes end. -/
def blockWords (block : Bytes) : Words 16 :=
  Vector.ofFn fun i => wordAt (block.drop (4 * i.val))

/-- Folds the `count` blocks of a chunk that follow its first, the last with the flags `last`. -/
def chunkBlocks : Nat → Words 8 → Bytes → Nat → UInt32 → UInt32 → Words 8
  | 0, cv, bs, counter, first, last =>
    compress cv (blockWords bs) counter bs.length (first ||| chunkEnd ||| last)
  | count + 1, cv, bs, counter, first, last =>
    let cv := compress cv (blockWords (bs.take 64)) counter 64 first
    chunkBlocks count cv (bs.drop 64) counter 0 last

/-- The chaining value of one chunk of at most 1024 bytes. -/
def chunk (bs : Bytes) (counter : Nat) (last : UInt32) : Words 8 :=
  chunkBlocks ((bs.length - 1) / 64) iv bs counter chunkStart last

def join (left right : Words 8) (last : UInt32) : Words 8 :=
  compress iv (left ++ right) 0 64 (parent ||| last)

/-- How many chunks the left subtree over `chunks` of them has. -/
def leftChunks (chunks : Nat) : Nat := 1 <<< Nat.log2 (chunks - 1)

/-- The tree over a message of `chunks` chunks that starts at chunk `counter`. -/
def tree : Nat → Nat → Bytes → Nat → UInt32 → Words 8
  | 0, _, bs, counter, last => chunk bs counter last
  | depth + 1, chunks, bs, counter, last =>
    if chunks ≤ 1 then chunk bs counter last
    else
      let left := leftChunks chunks
      join (tree depth left (bs.take (1024 * left)) counter 0)
        (tree depth (chunks - left) (bs.drop (1024 * left)) (counter + left) 0) last

end Adjudication.Blake3

namespace Adjudication

def blake3 (message : Bytes) : Bytes :=
  let chunks := (message.length + 1023) / 1024
  (Blake3.tree chunks chunks message 0 Blake3.root).toList.flatMap fun w => littleEndian 4 w.toNat

end Adjudication
