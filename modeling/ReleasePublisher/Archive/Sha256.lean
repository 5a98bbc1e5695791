import ReleasePublisher.Text.Hex

/-!
# SHA-256

A message is padded to blocks of sixty-four bytes, and each block is stirred into a state of eight
words in sixty-four rounds.

## Main definitions

* `Sha256.digest bs`: the digest of a message, thirty-two bytes
* `Sha256.hexDigest bs`: the digest in lower-case hexadecimal digits
* `Sha256.Hasher`: a digest in the making, which takes the message in pieces
-/

namespace ReleasePublisher.Sha256

/-- The eight words of the state. -/
structure Words where
  a : UInt32
  b : UInt32
  c : UInt32
  d : UInt32
  e : UInt32
  f : UInt32
  g : UInt32
  h : UInt32
  deriving DecidableEq, Repr

/-- The state before the first block: the fractional parts of the square roots of the first eight
primes. -/
def start : Words :=
  ⟨0x6a09e667, 0xbb67ae85, 0x3c6ef372, 0xa54ff53a, 0x510e527f, 0x9b05688c, 0x1f83d9ab, 0x5be0cd19⟩

/-- One word for each round: the fractional parts of the cube roots of the first sixty-four
primes. -/
def roundWords : List UInt32 :=
  [0x428a2f98, 0x71374491, 0xb5c0fbcf, 0xe9b5dba5, 0x3956c25b, 0x59f111f1, 0x923f82a4, 0xab1c5ed5,
   0xd807aa98, 0x12835b01, 0x243185be, 0x550c7dc3, 0x72be5d74, 0x80deb1fe, 0x9bdc06a7, 0xc19bf174,
   0xe49b69c1, 0xefbe4786, 0x0fc19dc6, 0x240ca1cc, 0x2de92c6f, 0x4a7484aa, 0x5cb0a9dc, 0x76f988da,
   0x983e5152, 0xa831c66d, 0xb00327c8, 0xbf597fc7, 0xc6e00bf3, 0xd5a79147, 0x06ca6351, 0x14292967,
   0x27b70a85, 0x2e1b2138, 0x4d2c6dfc, 0x53380d13, 0x650a7354, 0x766a0abb, 0x81c2c92e, 0x92722c85,
   0xa2bfe8a1, 0xa81a664b, 0xc24b8b70, 0xc76c51a3, 0xd192e819, 0xd6990624, 0xf40e3585, 0x106aa070,
   0x19a4c116, 0x1e376c08, 0x2748774c, 0x34b0bcb5, 0x391c0cb3, 0x4ed8aa4a, 0x5b9cca4f, 0x682e6ff3,
   0x748f82ee, 0x78a5636f, 0x84c87814, 0x8cc70208, 0x90befffa, 0xa4506ceb, 0xbef9a3f7, 0xc67178f2]

/-- A word turned to the right. -/
def rotate (x : UInt32) (n : UInt32) : UInt32 :=
  (x >>> n) ||| (x <<< (32 - n))

/-- The word that joins the sixteen in the window: it depends on four of them. -/
def nextWord (window : List UInt32) : UInt32 :=
  let w (i : Nat) : UInt32 := window.getD i 0
  let s0 := rotate (w 1) 7 ^^^ rotate (w 1) 18 ^^^ (w 1 >>> 3)
  let s1 := rotate (w 14) 17 ^^^ rotate (w 14) 19 ^^^ (w 14 >>> 10)
  w 0 + s0 + w 9 + s1

/-- One round with the word of the round and the word of the message. -/
def round (s : Words) (k w : UInt32) : Words :=
  let s1 := rotate s.e 6 ^^^ rotate s.e 11 ^^^ rotate s.e 25
  let choice := (s.e &&& s.f) ^^^ ((s.e ^^^ 0xFFFFFFFF) &&& s.g)
  let t1 := s.h + s1 + choice + k + w
  let s0 := rotate s.a 2 ^^^ rotate s.a 13 ^^^ rotate s.a 22
  let majority := (s.a &&& s.b) ^^^ (s.a &&& s.c) ^^^ (s.b &&& s.c)
  ⟨t1 + s0 + majority, s.a, s.b, s.c, s.d + t1, s.e, s.f, s.g⟩

/-- The rounds of one block, with a window of the sixteen words that are next. -/
def rounds (s : Words) (window : List UInt32) : List UInt32 → Words
  | [] => s
  | k :: ks =>
    rounds (round s k (window.headD 0)) (window.drop 1 ++ [nextWord window]) ks

/-- The words that bytes state, four bytes each. -/
def wordsOf : Bytes → List UInt32
  | a :: b :: c :: d :: rest =>
    ((a.toUInt32 <<< 24) ||| (b.toUInt32 <<< 16) ||| (c.toUInt32 <<< 8) ||| d.toUInt32)
      :: wordsOf rest
  | _ => []

/-- The state after one more block. -/
def stir (s : Words) (block : Bytes) : Words :=
  let t := rounds s (wordsOf block) roundWords
  ⟨s.a + t.a, s.b + t.b, s.c + t.c, s.d + t.d, s.e + t.e, s.f + t.f, s.g + t.g, s.h + t.h⟩

/-- The state after all blocks of a message. -/
def stirAll (s : Words) (bs : Bytes) : Words :=
  if _h : bs.length < 64 then s else stirAll (stir s (bs.take 64)) (bs.drop 64)
termination_by bs.length
decreasing_by (simp only [List.length_drop]; omega)

/-- The bytes of a number, the highest first. -/
def bigEndian (width n : Nat) : Bytes :=
  (List.range width).map fun i => UInt8.ofNat (n / Nat.pow 256 (width - 1 - i))

/-- The padding of a message of a given length: a single bit, zeros, and its length in bits. -/
def padding (length : Nat) : Bytes :=
  -- One byte for the bit and eight for the length fill up the last block.
  let zeros := (119 - length % 64) % 64
  0x80 :: List.replicate zeros 0 ++ bigEndian 8 (length * 8)

/-- A message with its padding. -/
def pad (bs : Bytes) : Bytes :=
  bs ++ padding bs.length

/-- The bytes of a state. -/
def Words.bytes (s : Words) : Bytes :=
  [s.a, s.b, s.c, s.d, s.e, s.f, s.g, s.h].flatMap fun w => bigEndian 4 w.toNat

/-- The digest of a message. -/
def digest (bs : Bytes) : Bytes :=
  (stirAll start (pad bs)).bytes

/-- The digest in lower-case hexadecimal digits. -/
def hexDigest (bs : Bytes) : String :=
  Hex.encode (digest bs)

/-! ### Messages in pieces -/

/-- A digest in the making. -/
structure Hasher where
  /-- The state after the full blocks so far. -/
  words : Words
  /-- What there is of the next block. -/
  block : Bytes
  /-- The length of the message so far. -/
  length : Nat
  deriving DecidableEq, Repr

namespace Hasher

/-- The hasher before the first piece. -/
def begin : Hasher :=
  { words := start, block := [], length := 0 }

/-- Takes one more piece of the message. -/
def update (h : Hasher) (piece : Bytes) : Hasher :=
  let bs := h.block ++ piece
  { words := stirAll h.words bs
    block := bs.drop (bs.length / 64 * 64)
    length := h.length + piece.length }

/-- The digest of what was taken. -/
def finish (h : Hasher) : Bytes :=
  (stirAll h.words (h.block ++ padding h.length)).bytes

end Hasher

end ReleasePublisher.Sha256
