import ReleasePublisher.Text.Utf8

/-!
# Deflated data

Deflated data are read bit by bit, the lowest bit of each byte first. They are a list of blocks. A block
holds bytes as they are, or words of a prefix code: a word stands for a byte, for bytes that are copied
from the data before, or for the end of the block. The code is a fixed one, or the block states the
lengths of its words.

## Main definitions

* `Bits`, `Reader`: what is left to be read, and a step that reads from it
* `PrefixCode`: a code, by the symbols of each length of words
* `readStored`, `readWords`: the contents of a block
* `inflate? bs`: the data, and what follows them
-/

namespace ReleasePublisher.Deflate

/-! ### Numbers in bytes -/

/-- The bytes of a number, the lowest first. -/
def littleEndian (width n : Nat) : Bytes :=
  (List.range width).map fun i => UInt8.ofNat (n / Nat.pow 256 i)

/-- The number that bytes state, the lowest first. -/
def numberOf (bs : Bytes) : Nat :=
  bs.foldr (fun b n => b.toNat + 256 * n) 0

/-! ### Bits -/

/-- What is left to be read: the bits of a byte that was begun, and the bytes behind it. -/
structure Bits where
  begun : List Bool
  bytes : Bytes
  deriving DecidableEq, Repr

/-- How many bits are left. -/
def Bits.count (s : Bits) : Nat :=
  s.begun.length + 8 * s.bytes.length

/-- A step that reads bits. It fails where the data are not deflated data. -/
abbrev Reader := StateT Bits Option

/-- Reads a bit. -/
def bit : Reader Bool := fun s =>
  match s.begun, s.bytes with
  | b :: begun, bytes => some (b, ⟨begun, bytes⟩)
  | [], byte :: bytes =>
    some (byte.toNat.testBit 0, ⟨(List.range 7).map fun i => byte.toNat.testBit (i + 1), bytes⟩)
  | [], [] => none

/-- Reads a number of some bits, the lowest first. -/
def number : Nat → Reader Nat
  | 0 => return 0
  | count + 1 => do
    let b ← bit
    return b.toNat + 2 * (← number count)

/-- Reads bytes. What is left of a byte that was begun is passed over. -/
def takeBytes (count : Nat) : Reader Bytes := fun s =>
  if s.bytes.length < count then none else some (s.bytes.take count, ⟨[], s.bytes.drop count⟩)

/-! ### Prefix codes -/

/-- A prefix code: the symbols whose words have one bit, then those whose words have two, and so on, each
time in the order of the words. -/
abbrev PrefixCode := List (List Nat)

namespace PrefixCode

/-- The code in which the words of the symbols have these lengths. A symbol with length zero has no
word. -/
def ofLengths (lengths : List Nat) : PrefixCode :=
  (List.range 15).map fun n => (lengths.zipIdx.filter (·.1 == n + 1)).map (·.2)

/-- How many words of the greatest length stand for nothing, if `free` words have been left for longer
ones so far. There is no answer where a length has more symbols than words. -/
def unused? : PrefixCode → Nat → Option Nat
  | [], free => some free
  | symbols :: longer, free =>
    if 2 * free < symbols.length then none else unused? longer (2 * free - symbols.length)

/-- Every long enough sequence of bits starts with one word. -/
def isComplete (c : PrefixCode) : Bool :=
  c.unused? 1 == some 0

/-- The code is complete, or has no symbol but one whose word is a single bit. -/
def isUsable (c : PrefixCode) : Bool :=
  c.isComplete || (c.headD []).length ≤ 1 && c.tail.all (·.isEmpty)

/-- Reads a word. Of the words of a length, those that stand for a symbol come first; `k` counts the bits
so far among the others. -/
def symbol : PrefixCode → Nat → Reader Nat
  | [], _ => failure
  | symbols :: longer, k => do
    let b ← bit
    let k := 2 * k + b.toNat
    match symbols[k]? with
    | some s => return s
    | none => symbol longer (k - symbols.length)

end PrefixCode

/-- The fixed code for bytes and lengths. -/
def fixedLiterals : PrefixCode :=
  .ofLengths (List.replicate 144 8 ++ List.replicate 112 9 ++ List.replicate 24 7 ++
    List.replicate 8 8)

/-- The fixed code for distances. -/
def fixedDistances : PrefixCode :=
  .ofLengths (List.replicate 32 5)

/-! ### Copies -/

/-- Reads what follows a symbol for a length. -/
def copyLength (k : Nat) : Reader Nat :=
  if k < 4 then return k + 3
  else if k < 28 then do
    let extra := k / 4 - 1
    return 3 + (4 + k % 4) * Nat.pow 2 extra + (← number extra)
  else if k == 28 then return 258
  else failure

/-- Reads what follows a symbol for a distance. -/
def copyDistance (k : Nat) : Reader Nat :=
  if k < 2 then return k + 1
  else if k < 30 then do
    let extra := k / 2 - 1
    return 1 + (2 + k % 2) * Nat.pow 2 extra + (← number extra)
  else failure

/-- Copies bytes one by one to the end of data, which stand in reverse. So a copy may reach into
itself. -/
def copyBack (distance : Nat) : Nat → Bytes → Option Bytes
  | 0, out => some out
  | count + 1, out => do
    let b ← out[distance - 1]?
    copyBack distance count (b :: out)

/-! ### Blocks

A block goes on with the data before it, which stand in reverse. Each word has a bit, so that the number
of bits is enough fuel for the words of a block, and for the blocks as well. -/

/-- Reads the words of a block up to the one for its end. -/
def readWords (literals distances : PrefixCode) : Nat → Bytes → Reader Bytes
  | 0, _ => failure
  | fuel + 1, out => do
    let s ← literals.symbol 0
    if s < 256 then readWords literals distances fuel (UInt8.ofNat s :: out)
    else if s == 256 then return out
    else
      let length ← copyLength (s - 257)
      let distance ← copyDistance (← distances.symbol 0)
      match copyBack distance length out with
      | some out => readWords literals distances fuel out
      | none => failure

/-- Reads a block of bytes as they are. Their number is stated twice. -/
def readStored (out : Bytes) : Reader Bytes := do
  let count := numberOf (← takeBytes 2)
  let complement := numberOf (← takeBytes 2)
  if count + complement == 65535 then
    let data ← takeBytes count
    return data.reverse ++ out
  else failure

/-- Reads lengths of words until `left` more are known. They are words of a code themselves: a length, the
last one again, or zeros. -/
def readLengths (code : PrefixCode) : Nat → Nat → List Nat → Reader (List Nat)
  | _, 0, known => return known.reverse
  | 0, _, _ => failure
  | fuel + 1, left, known => do
    let s ← code.symbol 0
    let (length, count) ← (match s, known with
      | 16, [] => failure
      | 16, last :: _ => return (last, 3 + (← number 2))
      | 17, _ => return (0, 3 + (← number 3))
      | 18, _ => return (0, 11 + (← number 7))
      | length, _ => return (length, 1) : Reader (Nat × Nat))
    if left < count then failure
    else readLengths code fuel (left - count) (List.replicate count length ++ known)

/-- The order in which the lengths of the code for lengths are stated. -/
def lengthOrder : List Nat :=
  [16, 17, 18, 0, 8, 7, 9, 6, 10, 5, 11, 4, 12, 3, 13, 2, 14, 1, 15]

/-- Reads the codes that a block states. -/
def readCodes : Reader (PrefixCode × PrefixCode) := do
  let literalCount := 257 + (← number 5)
  let distanceCount := 1 + (← number 5)
  let statedCount := 4 + (← number 4)
  let stated ← (lengthOrder.take statedCount).mapM fun s => return (s, ← number 3)
  let code := PrefixCode.ofLengths ((List.range 19).map fun s => (stated.lookup s).getD 0)
  if 286 < literalCount || 30 < distanceCount || !code.isComplete then failure
  else
    let total := literalCount + distanceCount
    let lengths ← readLengths code total total []
    let literals := PrefixCode.ofLengths (lengths.take literalCount)
    let distances := PrefixCode.ofLengths (lengths.drop literalCount)
    -- The end of the block must have a word.
    if lengths[256]? != some 0 && literals.isUsable && distances.isUsable then
      return (literals, distances)
    else failure

/-- Reads a block. -/
def readBlock (out : Bytes) : Reader Bytes := do
  match ← number 2 with
  | 0 => readStored out
  | 1 => readWords fixedLiterals fixedDistances (← get).count out
  | 2 =>
    let (literals, distances) ← readCodes
    readWords literals distances (← get).count out
  | _ => failure

/-- Reads blocks up to the last one. -/
def readBlocks : Nat → Bytes → Reader Bytes
  | 0, _ => failure
  | fuel + 1, out => do
    let isLast ← bit
    let out ← readBlock out
    if isLast then return out.reverse else readBlocks fuel out

/-- The data that are deflated in some bytes, and the bytes that follow. -/
def inflate? (bs : Bytes) : Option (Bytes × Bytes) :=
  (readBlocks (8 * bs.length) [] ⟨[], bs⟩).map fun (data, left) => (data, left.bytes)

end ReleasePublisher.Deflate
