import ReleasePublisher.Archive.Gzip
import ReleasePublisher.Proofs.Archive.Tar

/-!
# Names that a reader lists

A reader goes from header to header. The size of an entry may be a binary number, and a block whose checksum
is wrong is passed over: the next header is looked for one block further on. The name of an entry is the one
stated before it, if there is one.

## Main definitions

* `Tar.wideNumber? bs`: the number in a field of twelve bytes
* `Tar.listing long bs`: the names of the entries of an archive
* `Tar.Entry.IsListed e`: a reader goes on behind the entry

## Main results

* `Tar.wideNumber?_wideNumber`: a number of eleven bytes is read
* `Tar.listing_encode_append`, `Tar.listing_longName_append`: reading one entry
* `Tar.listing_archive`, `Tar.listing_archive_longName`: the names of an archive with one file
-/

namespace ReleasePublisher.Tar

/-! ### The reader -/

/-- The number that a field of twelve bytes states: in octal digits, or in binary behind a mark. -/
def wideNumber? (bs : Bytes) : Option Nat :=
  if bs.head? == some 0x80 then some (bs.tail.foldl (fun n b => n * 256 + b.toNat) 0)
  else octal? bs

/-- The size that a header block states. -/
def statedSize (head : Bytes) : Nat :=
  (wideNumber? (slice head 124 12)).getD 0

/-- **The names of the entries** of an archive up to the first zero block. The first one may have been stated
before. -/
def listing (long : Option Bytes) (bs : Bytes) : List Bytes :=
  let head := bs.take blockSize
  if _h : head.length < blockSize ∨ head.all (· == 0) then []
  else
    let b := Block.read head
    let body := bs.drop blockSize
    if !b.hasChecksum then listing long body
    else
      let size := statedSize head
      let rest := body.drop (size + padding size)
      if b.kind == longName then listing (some (untilZero (body.take size))) rest
      else long.getD b.name :: listing none rest
termination_by bs.length
decreasing_by
  all_goals
    simp only [not_or, List.length_take, head] at _h
    simp only [List.length_drop, blockSize] at *
    omega

/-! ### Sizes -/

/-- The lowest bytes of a number, the highest of them first. -/
def binaryDigits (count n : Nat) : Bytes :=
  (List.range count).map fun i => UInt8.ofNat (n / Nat.pow 256 (count - 1 - i))

theorem binary_eq (count n : Nat) : binary (count + 1) n = 0x80 :: binaryDigits count n := rfl

theorem binaryDigits_succ (count n : Nat) :
    binaryDigits (count + 1) n = UInt8.ofNat (n / Nat.pow 256 count) :: binaryDigits count n := by
  rw [binaryDigits, List.range_succ_eq_map, List.map_cons, List.map_map, binaryDigits]
  refine congrArg _ (List.map_congr_left fun i _ => ?_)
  have h : count + 1 - 1 - (i + 1) = count - 1 - i := by omega
  exact congrArg (fun k => UInt8.ofNat (n / Nat.pow 256 k)) h

theorem foldl_binaryDigits (count n acc : Nat) :
    (binaryDigits count n).foldl (fun m b => m * 256 + b.toNat) acc =
      acc * 256 ^ count + n % 256 ^ count := by
  induction count generalizing acc with
  | zero => simp [binaryDigits, Nat.mod_one]
  | succ count ih =>
    have hbyte : (UInt8.ofNat (n / 256 ^ count)).toNat = n / 256 ^ count % 256 := UInt8.toNat_ofNat'
    rw [binaryDigits_succ, List.foldl_cons, ih, show Nat.pow 256 count = 256 ^ count from rfl, hbyte]
    calc (acc * 256 + n / 256 ^ count % 256) * 256 ^ count + n % 256 ^ count
      _ = acc * (256 ^ count * 256) + (n % 256 ^ count + 256 ^ count * (n / 256 ^ count % 256)) := by
        ring
      _ = acc * 256 ^ (count + 1) + n % 256 ^ (count + 1) := by
        rw [Nat.pow_succ, Nat.mod_mul]

/-- **A number is read** if it has eleven bytes, whether it is written in digits or in binary. -/
theorem wideNumber?_wideNumber {n : Nat} (hn : n < 256 ^ 11) : wideNumber? (wideNumber n) = some n := by
  unfold wideNumber
  split
  · rename_i hsmall
    -- The first byte is a digit, and no mark.
    have hmark : ((octal 12 n).head? == some 0x80) = false := by
      have hdigit : UInt8.ofNat (0x30 + n / Nat.pow 8 10 % 8) ∈ octalDigits 11 n :=
        octalDigits_succ 10 n ▸ List.mem_cons_self
      obtain ⟨-, hle⟩ := mem_octalDigits hdigit
      rw [octal_eq, octalDigits_succ, List.cons_append, List.head?_cons, beq_eq_false_iff_ne]
      intro h
      rw [Option.some.inj h] at hle
      exact absurd hle (by decide)
    rw [wideNumber?, hmark]
    exact octal?_octal (by decide) hsmall
  · rw [wideNumber?, binary_eq, List.tail_cons, foldl_binaryDigits, Nat.mod_eq_of_lt hn]
    simp

theorem statedSize_encode {h : Header} (hname : h.name.length ≤ nameSize) (hsize : h.size < 256 ^ 11) :
    statedSize h.encode = h.size := by
  have hslice : slice h.encode (nameSize + (8 + (8 + (8 + 0)))) 12 = wideNumber h.size := by
    rw [Header.encode_eq, slice_append_add (length_field hname), slice_append_add (length_octal 7 _),
      slice_append_add (length_octal 7 _), slice_append_add (length_octal 7 _),
      slice_append (length_wideNumber _)]
  rw [statedSize, show slice h.encode 124 12 = _ from hslice, wideNumber?_wideNumber hsize]
  rfl

/-! ### Steps of the reader -/

/-- **Reading a header**: its name is listed, or names what comes behind its data. -/
theorem listing_header_append {h : Header} (hname : h.name.length ≤ nameSize) (hsize : h.size < 256 ^ 11)
    (long : Option Bytes) (rest : Bytes) :
    listing long (h.encode ++ rest) =
      if h.kind == longName then
        listing (some (untilZero (rest.take h.size))) (rest.drop (h.size + padding h.size))
      else long.getD (Block.read h.encode).name ::
        listing none (rest.drop (h.size + padding h.size)) := by
  have hlength := Header.length_encode hname
  have htake : (h.encode ++ rest).take blockSize = h.encode := List.take_left' hlength
  have hdrop : (h.encode ++ rest).drop blockSize = rest := List.drop_left' hlength
  rw [listing, dif_neg]
  · simp only [htake, hdrop, Header.hasChecksum_read hname, Header.kind_read hname,
      statedSize_encode hname hsize, Bool.not_true, Bool.false_eq_true, if_false]
  · simp [htake, hlength, Header.not_all_zero]

/-- **A block with a wrong checksum** is passed over. -/
theorem listing_junk_append {block : Bytes} (hlength : block.length = blockSize)
    (hzero : block.all (· == 0) = false) (hsum : (Block.read block).hasChecksum = false)
    (long : Option Bytes) (rest : Bytes) : listing long (block ++ rest) = listing long rest := by
  have htake : (block ++ rest).take blockSize = block := List.take_left' hlength
  have hdrop : (block ++ rest).drop blockSize = rest := List.drop_left' hlength
  rw [listing, dif_neg]
  · simp only [htake, hdrop, hsum, Bool.not_false, if_true]
  · simp [htake, hlength, hzero]

theorem listing_ending (long : Option Bytes) : listing long ending = [] := by
  rw [listing, dif_pos]
  right
  rw [ending, List.take_replicate, List.all_replicate]
  rfl

/-- **A reader goes on behind the entry.** Its header states the size of its data; or it states that there are
none, and the data are the start of a compressed file, which is no header. -/
structure Entry.IsListed (e : Entry) : Prop where
  name_length : e.header.name.length ≤ nameSize
  size_lt : e.header.size < 256 ^ 11
  data : e.header.size = e.data.length ∨ e.header.size = 0 ∧ e.data = Gzip.header

/-- What is behind the data that a header states. -/
theorem Entry.IsListed.listing_rest {e : Entry} (h : e.IsListed) (long : Option Bytes) (rest : Bytes) :
    listing long ((e.data ++ List.replicate (padding e.data.length) 0 ++ rest).drop
      (e.header.size + padding e.header.size)) = listing long rest := by
  rcases h.data with hsize | ⟨hsize, hdata⟩
  · rw [hsize, List.drop_left' (by rw [List.length_append, List.length_replicate])]
  · rw [hsize, hdata]
    have hblock : (Gzip.header ++ List.replicate (padding Gzip.header.length) 0).length = blockSize := by
      rw [List.length_append, List.length_replicate]
      rfl
    exact listing_junk_append hblock rfl (by decide) long rest

/-- **Reading an entry** lists the name that was stated before it, or else its own. -/
theorem listing_encode_append {e : Entry} (h : e.IsListed) (hkind : e.header.kind ≠ longName)
    (long : Option Bytes) (rest : Bytes) :
    listing long (e.encode ++ rest) =
      long.getD (Block.read e.header.encode).name :: listing none rest := by
  rw [Entry.encode, List.append_assoc, List.append_assoc, listing_header_append h.name_length h.size_lt,
    if_neg (by simpa using hkind), ← List.append_assoc, h.listing_rest]

/-- **Reading an entry with a long name** states that name for the next one. -/
theorem listing_longName_append {name : Bytes} (hlength : name.length + 1 < 256 ^ 11) (hzero : 0 ∉ name)
    (long : Option Bytes) (rest : Bytes) :
    listing long ((longNameEntry name).encode ++ rest) = listing (some name) rest := by
  have hlisted : (longNameEntry name).IsListed :=
    { name_length := Nat.le_of_ble_eq_true rfl
      size_lt := hlength
      data := .inl (by simp [longNameEntry]) }
  have hsize : (longNameEntry name).header.size = (longNameEntry name).data.length := by
    simp [longNameEntry]
  have hkind : ((longNameEntry name).header.kind == longName) = true := beq_self_eq_true longName
  have hname : untilZero (longNameEntry name).data = name := untilZero_append hzero rfl
  rw [Entry.encode, List.append_assoc, List.append_assoc,
    listing_header_append hlisted.name_length hlisted.size_lt, if_pos hkind, ← List.append_assoc,
    hlisted.listing_rest, hsize, List.append_assoc, List.take_left, hname]

/-! ### Archives with one file -/

/-- A file that is listed under its own name. -/
theorem listing_archive {e : Entry} (h : e.IsListed) (hkind : e.header.kind ≠ longName)
    (hzero : 0 ∉ e.header.name) : listing none (archive [e]) = [e.header.name] := by
  have harchive : archive [e] = e.encode ++ ending := by simp [archive]
  rw [harchive, listing_encode_append h hkind, listing_ending, Option.getD_none,
    Header.name_read h.name_length hzero]

/-- A file that is listed under the name stated before it. -/
theorem listing_archive_longName {e : Entry} {name : Bytes} (h : e.IsListed)
    (hkind : e.header.kind ≠ longName) (hlength : name.length + 1 < 256 ^ 11) (hzero : 0 ∉ name) :
    listing none (archive [longNameEntry name, e]) = [name] := by
  have harchive : archive [longNameEntry name, e] =
      (longNameEntry name).encode ++ (e.encode ++ ending) := by
    simp [archive]
  rw [harchive, listing_longName_append hlength hzero, listing_encode_append h hkind, listing_ending,
    Option.getD_some]

end ReleasePublisher.Tar
