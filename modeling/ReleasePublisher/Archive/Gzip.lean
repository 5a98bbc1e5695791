import ReleasePublisher.Archive.Crc32
import ReleasePublisher.Archive.Deflate

/-!
# Gzip

A compressed file is a header, the deflated data, and the check value and length of the data. Any such
file is read. How the data are deflated is up to a writer: all that is asked of one is that the file
starts with the plain header, is not much longer than the data, and can be read.

## Main definitions

* `Gzip.header`: the plain header
* `Gzip.decompress? bs`: the data of a file
* `Gzip.Writer`: a writer of compressed files
-/

namespace ReleasePublisher.Gzip

open Deflate

/-- The plain header: the mark of the format, the method, no more fields, no time, and a system that is
not told. -/
def header : Bytes :=
  [0x1F, 0x8B, 0x08, 0, 0, 0, 0, 0, 0, 0xFF]

/-- The check value and the length of the data. -/
def trailer (bs : Bytes) : Bytes :=
  littleEndian 4 (Crc32.checksum bs).toNat ++ littleEndian 4 bs.length

/-! ### Reading -/

/-- The file starts as a compressed file does. -/
def isGzip (bs : Bytes) : Bool :=
  bs.take 3 == header.take 3

/-- What follows a field that states its length before it. -/
def afterSized? (bs : Bytes) : Option Bytes :=
  let size := 2 + numberOf (bs.take 2)
  if bs.length < size then none else some (bs.drop size)

/-- What follows a text that ends with a zero. -/
def afterText? (bs : Bytes) : Option Bytes :=
  match bs.dropWhile (· != 0) with
  | [] => none
  | _ :: rest => some rest

/-- What follows a header. The bits of its fourth byte tell which fields it has: a check value of the
header, another field, a name and a comment. -/
def afterHeader? (bs : Bytes) : Option Bytes := do
  let flags := (bs.getD 3 0).toNat
  let has (i : Nat) : Bool := flags.testBit i
  if !isGzip bs || bs.length < header.length || 32 ≤ flags then none
  else
    let rest := bs.drop header.length
    let rest ← if has 2 then afterSized? rest else some rest
    let rest ← if has 3 then afterText? rest else some rest
    let rest ← if has 4 then afterText? rest else some rest
    let covered := bs.take (bs.length - rest.length)
    if !has 1 then return rest
    else if rest.take 2 == littleEndian 2 (Crc32.checksum covered).toNat then return rest.drop 2
    else none

/-- The data of a file. The check value and the length must be right, and nothing may follow. -/
def decompress? (bs : Bytes) : Option Bytes := do
  let (data, after) ← inflate? (← afterHeader? bs)
  if after == trailer data then some data else none

/-- Ten times the same byte: two of them, and a copy that reaches into itself. -/
example :
    decompress? (header ++ [0x4B, 0x4C, 0x84, 0x01, 0x00, 0xF0, 0xCD, 0x11, 0x4C, 0x0A, 0, 0, 0]) =
      some (List.replicate 10 0x61) := by
  decide +kernel

/-! ### Writing -/

/-- **A writer of compressed files.** -/
class Writer where
  /-- The file with some data. -/
  compress : Bytes → Bytes
  /-- It starts with the plain header. -/
  header_prefix (bs : Bytes) : header <+: compress bs
  /-- Reading it gives back the data. -/
  decompress?_compress (bs : Bytes) : decompress? (compress bs) = some bs
  /-- Data that cannot be made shorter do not become much longer. -/
  length_compress_le (bs : Bytes) : (compress bs).length ≤ bs.length + bs.length / 4 + 256

export Writer (compress decompress?_compress)

end ReleasePublisher.Gzip
