import ReleasePublisher.Text.Utf8

/-!
# Tape archives

An archive is a sequence of entries and two zero blocks. An entry is a header of one block and its
data, filled up to whole blocks. A name that is too long for the header is the data of an entry of
its own, which stands before.

## Main definitions

* `Tar.Header`, `Tar.Header.encode`: a header and its block
* `Tar.Entry`, `Tar.Entry.encode`: a header with data
* `Tar.archive`: the archive with these entries
* `Tar.Block.read`: the fields of a header block
* `Tar.readEntries`: the entries of an archive, and what follows them
* `Tar.members`: the entries with their long names
-/

namespace ReleasePublisher.Tar

/-- The length of a block. -/
def blockSize : Nat := 512

/-- The length of the field that holds a name. -/
def nameSize : Nat := 100

/-- A header. -/
structure Header where
  /-- The name, of at most `nameSize` bytes. -/
  name : Bytes
  mode : Nat
  size : Nat
  modified : Nat
  /-- The kind of the entry: `0` is a regular file, and `L` the name of the next entry. -/
  kind : UInt8
  deriving DecidableEq, Repr

/-- A header with data. -/
structure Entry where
  header : Header
  data : Bytes
  deriving DecidableEq, Repr

/-- The kind of a regular file. -/
def regular : UInt8 := 0x30

/-- The kind of an entry that holds the name of the next one. -/
def longName : UInt8 := 0x4C

/-- Bytes in a field of a given width, with zeros behind them. -/
def field (width : Nat) (bs : Bytes) : Bytes :=
  bs ++ List.replicate (width - bs.length) 0

/-- A number as octal digits in a field of a given width, with a zero byte at the end. -/
def octal (width n : Nat) : Bytes :=
  (List.range (width - 1)).map (fun i =>
    UInt8.ofNat (0x30 + n / Nat.pow 8 (width - 2 - i) % 8)) ++ [0]

/-- A number too large for octal digits, in binary behind a mark. -/
def binary (width n : Nat) : Bytes :=
  0x80 :: (List.range (width - 1)).map fun i => UInt8.ofNat (n / Nat.pow 256 (width - 2 - i))

/-- A number in a field of twelve bytes. -/
def wideNumber (n : Nat) : Bytes :=
  if n < Nat.pow 8 11 then octal 12 n else binary 12 n

/-- The mark of the format. -/
def magic : Bytes := [0x75, 0x73, 0x74, 0x61, 0x72, 0x20, 0x20, 0x00]

namespace Header

/-- The fields before the checksum. -/
def front (h : Header) : Bytes :=
  field nameSize h.name ++ octal 8 h.mode ++ octal 8 0 ++ octal 8 0 ++ wideNumber h.size ++
    wideNumber h.modified

/-- The fields behind the checksum. -/
def back (h : Header) : Bytes :=
  field 101 [h.kind] ++ field 255 magic

/-- The sum of bytes. -/
def byteSum (bs : Bytes) : Nat :=
  bs.foldl (fun n b => n + b.toNat) 0

/-- The sum of the bytes of a header, with blanks in the place of the checksum. -/
def checksum (front back : Bytes) : Nat :=
  byteSum front + 8 * 0x20 + byteSum back

/-- The block of a header. -/
def encode (h : Header) : Bytes :=
  h.front ++ octal 8 (checksum h.front h.back) ++ h.back

end Header

/-- How many bytes fill up data to whole blocks. -/
def padding (length : Nat) : Nat :=
  (blockSize - length % blockSize) % blockSize

/-- An entry as it stands in an archive. -/
def Entry.encode (e : Entry) : Bytes :=
  e.header.encode ++ e.data ++ List.replicate (padding e.data.length) 0

/-- The two zero blocks that end an archive. -/
def ending : Bytes := List.replicate (2 * blockSize) 0

/-- The archive with these entries. -/
def archive (entries : List Entry) : Bytes :=
  entries.flatMap Entry.encode ++ ending

/-- The entry that states a name too long for a header. Its data end in a zero byte. -/
def longNameEntry (name : Bytes) : Entry :=
  { header :=
      { name := [0x2E, 0x2F, 0x2E, 0x2F, 0x40, 0x4C, 0x6F, 0x6E, 0x67, 0x4C, 0x69, 0x6E, 0x6B]
        mode := 0o644
        size := name.length + 1
        modified := 0
        kind := longName }
    data := name ++ [0] }

/-! ### Reading -/

/-- The fields of a header block. Numbers are missing where the field states none. -/
structure Block where
  name : Bytes
  mode : Option Nat
  size : Option Nat
  modified : Option Nat
  hasChecksum : Bool
  kind : UInt8
  link : Bytes
  magic : Bytes
  folder : Bytes
  deriving DecidableEq, Repr

/-- The bytes of a field up to the first zero. -/
def untilZero (bs : Bytes) : Bytes :=
  bs.takeWhile (· != 0)

/-- The number that octal digits state. Blanks and zero bytes may stand around them. -/
def octal? (bs : Bytes) : Option Nat :=
  let isFill (b : UInt8) : Bool := b == 0 || b == 0x20
  let digits := (bs.dropWhile isFill).takeWhile (!isFill ·)
  if digits.isEmpty || !digits.all (fun b => 0x30 ≤ b && b ≤ 0x37) then none
  else some (digits.foldl (fun n b => n * 8 + (b.toNat - 0x30)) 0)

/-- The bytes of a block from a position on. -/
def slice (bs : Bytes) (start width : Nat) : Bytes :=
  (bs.drop start).take width

/-- The fields of a header block. -/
def Block.read (bs : Bytes) : Block :=
  -- The checksum's own field counts as blanks.
  let sum := Header.checksum (bs.take 148) (bs.drop 156)
  { name := untilZero (slice bs 0 100)
    mode := octal? (slice bs 100 8)
    size := octal? (slice bs 124 12)
    modified := octal? (slice bs 136 12)
    hasChecksum := octal? (slice bs 148 8) == some sum
    kind := (slice bs 156 1).headD 0
    link := untilZero (slice bs 157 100)
    magic := slice bs 257 8
    folder := untilZero (slice bs 345 155) }

/-- The entries of an archive up to the first zero block, and what is left from there on. -/
def readEntries (bs : Bytes) : List (Block × Bytes) × Bytes :=
  let head := bs.take blockSize
  if _h : head.length < blockSize ∨ head.all (· == 0) then ([], bs)
  else
    let b := Block.read head
    let size := b.size.getD 0
    let body := bs.drop blockSize
    -- Data take whole blocks.
    let (entries, rest) := readEntries (body.drop (size + padding size))
    ((b, body.take size) :: entries, rest)
termination_by bs.length
decreasing_by
  simp only [not_or, List.length_take, head] at _h
  simp only [List.length_drop, blockSize] at *
  omega

/-- A member of an archive: an entry with its full name. -/
structure Member where
  name : Bytes
  mode : Option Nat
  kind : UInt8
  data : Bytes
  deriving DecidableEq, Repr

/-- The members that entries state. The name of an entry is the one stated before it, if there is
one. -/
def membersOf (long : Option Bytes) : List (Block × Bytes) → List Member
  | [] => []
  | (b, data) :: rest =>
    if b.kind == longName then membersOf (some (untilZero data)) rest
    else ⟨long.getD b.name, b.mode, b.kind, data⟩ :: membersOf none rest

/-- The members of an archive. -/
def members (bs : Bytes) : List Member :=
  membersOf none (readEntries bs).1

end ReleasePublisher.Tar
