import ReleasePublisher.Archive.Tar
import Mathlib.Tactic.Ring

/-!
# Tape archives can be read

Reading an archive gives back its entries: each field of a header stands where it is looked for and
holds what the header states, and the data of an entry end at the next block.

## Main definitions

* `Tar.Entry.Fits e`: the fields of the header hold what it states

## Main results

* `Tar.octal?_octal`: a number is read if its field has room for it
* `Tar.Header.hasChecksum_read`: the checksum of a header is right
* `Tar.readEntries_archive`: reading an archive gives back the entries
* `Tar.members_archive`, `Tar.members_archive_longName`: a file is read with its full name
-/

namespace ReleasePublisher.Tar

/-! ### Numbers -/

/-- The octal digits of a number, so many of them. -/
def octalDigits (count n : Nat) : Bytes :=
  (List.range count).map fun i => UInt8.ofNat (0x30 + n / Nat.pow 8 (count - 1 - i) % 8)

theorem octal_eq (count n : Nat) : octal (count + 1) n = octalDigits count n ++ [0] := rfl

theorem octalDigits_succ (count n : Nat) :
    octalDigits (count + 1) n =
      UInt8.ofNat (0x30 + n / Nat.pow 8 count % 8) :: octalDigits count n := by
  rw [octalDigits, List.range_succ_eq_map, List.map_cons, List.map_map, octalDigits]
  refine congrArg _ (List.map_congr_left fun i _ => ?_)
  have h : count + 1 - 1 - (i + 1) = count - 1 - i := by omega
  exact congrArg (fun k => UInt8.ofNat (0x30 + n / Nat.pow 8 k % 8)) h

@[simp] theorem length_octalDigits (count n : Nat) : (octalDigits count n).length = count := by
  simp [octalDigits]

/-- The number that a digit stands for. -/
theorem toNat_digit {d : Nat} (h : d < 8) : (UInt8.ofNat (0x30 + d)).toNat = 0x30 + d := by
  rw [UInt8.toNat_ofNat']
  omega

theorem mem_octalDigits {count n : Nat} {b : UInt8} (h : b ∈ octalDigits count n) :
    0x30 ≤ b ∧ b ≤ 0x37 := by
  obtain ⟨i, -, rfl⟩ := List.mem_map.mp h
  have hd : n / Nat.pow 8 (count - 1 - i) % 8 < 8 := Nat.mod_lt _ (by decide)
  rw [UInt8.le_iff_toNat_le, UInt8.le_iff_toNat_le, toNat_digit hd]
  constructor
  · exact Nat.le_add_right _ _
  · exact Nat.add_le_add_left (Nat.le_of_lt_succ hd) 0x30

theorem foldl_octalDigits (count n acc : Nat) :
    (octalDigits count n).foldl (fun m b => m * 8 + (b.toNat - 0x30)) acc =
      acc * 8 ^ count + n % 8 ^ count := by
  induction count generalizing acc with
  | zero => simp [octalDigits, Nat.mod_one]
  | succ count ih =>
    have hd : n / 8 ^ count % 8 < 8 := Nat.mod_lt _ (by decide)
    rw [octalDigits_succ, List.foldl_cons, ih, show Nat.pow 8 count = 8 ^ count from rfl,
      toNat_digit hd, Nat.add_sub_cancel_left]
    calc (acc * 8 + n / 8 ^ count % 8) * 8 ^ count + n % 8 ^ count
      _ = acc * (8 ^ count * 8) + (n % 8 ^ count + 8 ^ count * (n / 8 ^ count % 8)) := by
        ring
      _ = acc * 8 ^ (count + 1) + n % 8 ^ (count + 1) := by
        rw [Nat.pow_succ, Nat.mod_mul]

/-- **A number is read** if its field has room for it. -/
theorem octal?_octal {count n : Nat} (hcount : count ≠ 0) (hn : n < 8 ^ count) :
    octal? (octal (count + 1) n) = some n := by
  have hfill : ∀ b ∈ octalDigits count n, (b == 0 || b == 0x20) = false := by
    intro b hb
    obtain ⟨h, -⟩ := mem_octalDigits hb
    rw [UInt8.le_iff_toNat_le] at h
    rw [Bool.or_eq_false_iff]
    constructor <;>
    · rw [beq_eq_false_iff_ne]
      rintro rfl
      exact absurd h (by decide)
  have hdrop : (octalDigits count n ++ [0]).dropWhile (fun b => b == 0 || b == 0x20) =
      octalDigits count n ++ [0] := by
    obtain ⟨k, rfl⟩ := Nat.exists_eq_succ_of_ne_zero hcount
    have hhead := hfill _ (octalDigits_succ k n ▸ List.mem_cons_self)
    rw [octalDigits_succ, List.cons_append, List.dropWhile_cons_of_neg]
    exact fun h => Bool.false_ne_true (hhead.symm.trans h)
  have htake : (octalDigits count n ++ [0]).takeWhile (fun b => !(b == 0 || b == 0x20)) =
      octalDigits count n := by
    rw [List.takeWhile_append_of_pos (by simpa using hfill)]
    simp
  have hempty : (octalDigits count n).isEmpty = false := by
    simpa [List.isEmpty_iff, ← List.length_eq_zero_iff] using hcount
  have hall : (octalDigits count n).all (fun b => 0x30 ≤ b && b ≤ 0x37) = true := by
    rw [List.all_eq_true]
    intro b hb
    simpa using mem_octalDigits hb
  rw [octal_eq, octal?]
  simp only [hdrop, htake, hempty, hall, foldl_octalDigits]
  simp [Nat.mod_eq_of_lt hn]

/-! ### Fields of a header -/

theorem length_field {width : Nat} {bs : Bytes} (h : bs.length ≤ width) :
    (field width bs).length = width := by
  rw [field, List.length_append, List.length_replicate, Nat.add_sub_of_le h]

@[simp] theorem length_octal (count n : Nat) : (octal (count + 1) n).length = count + 1 := by
  rw [octal_eq, List.length_append, length_octalDigits]
  rfl

@[simp] theorem length_wideNumber (n : Nat) : (wideNumber n).length = 12 := by
  unfold wideNumber
  split
  · exact length_octal 11 n
  · simp [binary]

/-- A field at the start is what stands there. -/
theorem slice_append {bs : Bytes} {width : Nat} (h : bs.length = width) (rest : Bytes) :
    slice (bs ++ rest) 0 width = bs := by
  rw [slice, List.drop_zero, List.take_left' h]

/-- A field behind another one. -/
theorem slice_append_add {bs : Bytes} {n : Nat} (h : bs.length = n) (rest : Bytes)
    (start width : Nat) : slice (bs ++ rest) (n + start) width = slice rest start width := by
  rw [slice, ← List.drop_drop, List.drop_left' h, slice]

theorem untilZero_append {bs rest : Bytes} (h : 0 ∉ bs) (hrest : untilZero rest = []) :
    untilZero (bs ++ rest) = bs := by
  have hb : ∀ b ∈ bs, (b != 0) = true := by
    intro b hb
    rw [bne_iff_ne]
    rintro rfl
    exact h hb
  rw [untilZero] at hrest ⊢
  rw [List.takeWhile_append_of_pos hb, hrest, List.append_nil]

/-- A name without zero bytes is what stands in its field before the zeros. -/
theorem untilZero_field {bs : Bytes} (h : 0 ∉ bs) (width : Nat) : untilZero (field width bs) = bs := by
  apply untilZero_append h
  cases width - bs.length <;> rfl

namespace Header

variable {h : Header}

/-- The fields before the checksum, one by one. -/
theorem length_front (hname : h.name.length ≤ nameSize) : h.front.length = 148 := by
  simp only [front, List.length_append, length_field hname, length_octal, length_wideNumber]
  rfl

@[simp] theorem length_back (h : Header) : h.back.length = 356 := by
  have hkind : [h.kind].length ≤ 101 := by simp
  rw [back, List.length_append, length_field hkind, length_field (by decide)]

theorem length_encode (hname : h.name.length ≤ nameSize) : h.encode.length = blockSize := by
  rw [encode, List.length_append, List.length_append, length_front hname, length_octal, length_back]
  rfl

theorem byteSum_le (bs : Bytes) : byteSum bs ≤ 255 * bs.length := by
  have h : ∀ acc, bs.foldl (fun n b => n + b.toNat) acc ≤ acc + 255 * bs.length := by
    induction bs with
    | nil => exact fun acc => Nat.le_refl acc
    | cons b bs ih =>
      intro acc
      have hb : b.toNat ≤ 255 := Nat.le_of_lt_succ b.toNat_lt
      have := ih (acc + b.toNat)
      rw [List.foldl_cons, List.length_cons]
      omega
  simpa [byteSum] using h 0

/-- The checksum of a header has room in its field. -/
theorem checksum_lt (hname : h.name.length ≤ nameSize) : checksum h.front h.back < 8 ^ 7 := by
  have hfront := byteSum_le h.front
  have hback := byteSum_le h.back
  rw [length_front hname] at hfront
  rw [length_back] at hback
  rw [checksum]
  omega

/-- **The checksum of a header is right.** -/
theorem hasChecksum_read (hname : h.name.length ≤ nameSize) :
    (Block.read h.encode).hasChecksum = true := by
  have hfront := length_front hname
  have htake : h.encode.take 148 = h.front := by
    rw [encode, List.append_assoc, List.take_left' hfront]
  have hdrop : h.encode.drop 156 = h.back := by
    rw [encode, List.drop_left' (by rw [List.length_append, hfront, length_octal])]
  have hslice : slice h.encode 148 8 = octal 8 (checksum h.front h.back) := by
    rw [encode, List.append_assoc]
    exact (slice_append_add hfront _ 0 8).trans (slice_append (length_octal 7 _) _)
  rw [Block.read]
  simp only [htake, hdrop, hslice, octal?_octal (by decide) (checksum_lt hname)]
  exact beq_self_eq_true _

/-- The fields of a header block, with the name first. -/
theorem encode_eq (h : Header) :
    h.encode = field nameSize h.name ++ (octal 8 h.mode ++ (octal 8 0 ++ (octal 8 0 ++
      (wideNumber h.size ++ (wideNumber h.modified ++ (octal 8 (checksum h.front h.back) ++
        h.back)))))) := by
  rw [encode, front]
  simp only [List.append_assoc]

theorem name_read (hname : h.name.length ≤ nameSize) (hzero : 0 ∉ h.name) :
    (Block.read h.encode).name = h.name := by
  show untilZero (slice h.encode 0 nameSize) = h.name
  rw [encode_eq, slice_append (length_field hname), untilZero_field hzero]

theorem mode_read (hname : h.name.length ≤ nameSize) (hmode : h.mode < 8 ^ 7) :
    (Block.read h.encode).mode = some h.mode := by
  show octal? (slice h.encode (nameSize + 0) 8) = some h.mode
  rw [encode_eq, slice_append_add (length_field hname), slice_append (length_octal 7 _)]
  exact octal?_octal (by decide) hmode

theorem size_read (hname : h.name.length ≤ nameSize) (hsize : h.size < 8 ^ 11) :
    (Block.read h.encode).size = some h.size := by
  show octal? (slice h.encode (nameSize + (8 + (8 + (8 + 0)))) 12) = some h.size
  rw [encode_eq, slice_append_add (length_field hname), slice_append_add (length_octal 7 _),
    slice_append_add (length_octal 7 _), slice_append_add (length_octal 7 _),
    slice_append (length_wideNumber _), wideNumber, if_pos (show h.size < Nat.pow 8 11 from hsize)]
  exact octal?_octal (by decide) hsize

theorem kind_read (hname : h.name.length ≤ nameSize) : (Block.read h.encode).kind = h.kind := by
  show (slice h.encode (148 + (8 + 0)) 1).headD 0 = h.kind
  rw [encode, List.append_assoc, slice_append_add (length_front hname),
    slice_append_add (length_octal 7 _)]
  rfl

/-- A header is no zero block: it holds the mark of the format. -/
theorem not_all_zero (h : Header) : h.encode.all (· == 0) = false := by
  rw [List.all_eq_false]
  have hmark : 0x75 ∈ field 255 magic := List.mem_append_left _ (by decide)
  exact ⟨0x75, List.mem_append_right _ (List.mem_append_right _ hmark), by decide⟩

end Header

/-! ### Entries -/

/-- The fields of the header hold what it states. -/
structure Entry.Fits (e : Entry) : Prop where
  name_length : e.header.name.length ≤ nameSize
  size_eq : e.header.size = e.data.length
  length_lt : e.data.length < 8 ^ 11

theorem padding_lt (length : Nat) : padding length < blockSize :=
  Nat.mod_lt _ (by decide)

/-- Data are filled up to whole blocks. -/
theorem add_padding_mod (length : Nat) : (length + padding length) % blockSize = 0 := by
  simp only [padding, blockSize]
  omega

theorem Entry.length_encode_mod {e : Entry} (h : e.Fits) : e.encode.length % blockSize = 0 := by
  have hdata := add_padding_mod e.data.length
  rw [Entry.encode, List.length_append, List.length_append, Header.length_encode h.name_length,
    List.length_replicate, Nat.add_assoc, Nat.add_mod_left]
  exact hdata

/-- **Reading an entry** gives its header and data, and goes on behind them. -/
theorem readEntries_encode_append {e : Entry} (h : e.Fits) (rest : Bytes) :
    readEntries (e.encode ++ rest) =
      ((Block.read e.header.encode, e.data) :: (readEntries rest).1, (readEntries rest).2) := by
  have hheader := Header.length_encode h.name_length
  have hsize : (Block.read e.header.encode).size.getD 0 = e.data.length := by
    rw [Header.size_read h.name_length (h.size_eq ▸ h.length_lt), h.size_eq]
    rfl
  have hencode : e.encode ++ rest = e.header.encode ++
      (e.data ++ (List.replicate (padding e.data.length) 0 ++ rest)) := by
    simp only [Entry.encode, List.append_assoc]
  have htake : (e.encode ++ rest).take blockSize = e.header.encode := by
    rw [hencode, List.take_left' hheader]
  have hdrop : (e.encode ++ rest).drop blockSize =
      e.data ++ (List.replicate (padding e.data.length) 0 ++ rest) := by
    rw [hencode, List.drop_left' hheader]
  have hnext : (e.data ++ (List.replicate (padding e.data.length) 0 ++ rest)).drop
      (e.data.length + padding e.data.length) = rest := by
    rw [← List.drop_drop, List.drop_left, List.drop_left' List.length_replicate]
  rw [readEntries, dif_neg]
  · simp only [htake, hdrop, hsize, hnext, List.take_left]
  · simp [htake, hheader, Header.not_all_zero]

theorem readEntries_ending : readEntries ending = ([], ending) := by
  rw [readEntries, dif_pos]
  right
  rw [ending, List.take_replicate, List.all_replicate]
  rfl

/-- **Reading an archive** gives back the entries, and then the two zero blocks. -/
theorem readEntries_archive {entries : List Entry} (h : ∀ e ∈ entries, e.Fits) :
    readEntries (archive entries) =
      (entries.map fun e => (Block.read e.header.encode, e.data), ending) := by
  induction entries with
  | nil => exact readEntries_ending
  | cons e rest ih =>
    have harchive : archive (e :: rest) = e.encode ++ archive rest := by
      simp only [archive, List.flatMap_cons, List.append_assoc]
    rw [harchive, readEntries_encode_append (h e List.mem_cons_self),
      ih fun e' he' => h e' (List.mem_cons_of_mem e he')]
    rfl

/-- **Entries take whole blocks.** -/
theorem length_encode_mod {entries : List Entry} (h : ∀ e ∈ entries, e.Fits) :
    (entries.flatMap Entry.encode).length % blockSize = 0 := by
  induction entries with
  | nil => rfl
  | cons e rest ih =>
    have hfirst := Entry.length_encode_mod (h e List.mem_cons_self)
    have hrest := ih fun e' he' => h e' (List.mem_cons_of_mem e he')
    rw [List.flatMap_cons, List.length_append, Nat.add_mod, hfirst, hrest]
    rfl

/-- The last data of an archive, and what follows them. -/
theorem archive_concat (entries : List Entry) (e : Entry) :
    archive (entries ++ [e]) = entries.flatMap Entry.encode ++ e.header.encode ++ e.data ++
      List.replicate (padding e.data.length) 0 ++ ending := by
  simp only [archive, List.flatMap_append, List.flatMap_cons, List.flatMap_nil, Entry.encode,
    List.append_nil, List.append_assoc]

/-- **Every checksum in an archive is right.** -/
theorem hasChecksum_archive {entries : List Entry} (h : ∀ e ∈ entries, e.Fits) :
    ∀ b ∈ (readEntries (archive entries)).1, b.1.hasChecksum = true := by
  rw [readEntries_archive h]
  intro b hb
  obtain ⟨e, he, rfl⟩ := List.mem_map.mp hb
  exact Header.hasChecksum_read (h e he).name_length

/-! ### Members -/

/-- A file that is stated under its own name. -/
theorem members_archive {e : Entry} (h : e.Fits) (hzero : 0 ∉ e.header.name)
    (hmode : e.header.mode < 8 ^ 7) (hkind : e.header.kind ≠ longName) :
    members (archive [e]) = [⟨e.header.name, some e.header.mode, e.header.kind, e.data⟩] := by
  rw [members, readEntries_archive (by simpa using h)]
  simp only [List.map_cons, List.map_nil, membersOf, Header.kind_read h.name_length,
    Header.mode_read h.name_length hmode, Header.name_read h.name_length hzero, beq_iff_eq, hkind,
    if_false, Option.getD_none]

theorem longNameEntry_fits {name : Bytes} (h : name.length + 1 < 8 ^ 11) :
    (longNameEntry name).Fits where
  name_length := Nat.le_of_ble_eq_true rfl
  size_eq := by simp [longNameEntry]
  length_lt := by simpa [longNameEntry] using h

/-- A file whose name is stated by the entry before. -/
theorem members_archive_longName {e : Entry} {name : Bytes} (h : e.Fits)
    (hlong : name.length + 1 < 8 ^ 11) (hzero : 0 ∉ name) (hmode : e.header.mode < 8 ^ 7)
    (hkind : e.header.kind ≠ longName) :
    members (archive [longNameEntry name, e]) =
      [⟨name, some e.header.mode, e.header.kind, e.data⟩] := by
  have hstated := longNameEntry_fits hlong
  have hread : (Block.read (longNameEntry name).header.encode).kind = longName :=
    Header.kind_read hstated.name_length
  have hname : untilZero (longNameEntry name).data = name := untilZero_append hzero rfl
  rw [members, readEntries_archive (by simp [hstated, h])]
  simp only [List.map_cons, List.map_nil, membersOf, hread, hname, Header.kind_read h.name_length,
    Header.mode_read h.name_length hmode, beq_iff_eq, hkind, beq_self_eq_true, if_true, if_false,
    Option.getD_some]

end ReleasePublisher.Tar
