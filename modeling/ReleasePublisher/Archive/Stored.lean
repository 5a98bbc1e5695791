import ReleasePublisher.Archive.Gzip

/-!
# Stored data

The simplest writer of compressed files makes nothing shorter: the data stand as they are, in blocks that
state their length. The length of a block has two bytes, and so has its complement; the blocks are read
one by one, as they were written.

## Main definitions

* `Gzip.store bs`: data in blocks
* `Gzip.storedBlocks`: the writer

## Main results

* `Deflate.numberOf_littleEndian`: a number is read up to the width of its field
* `Deflate.readBlock_storedBlock`, `Deflate.readBlocks_store`: a block is read, and reading blocks stops
  behind the last one
-/

namespace ReleasePublisher

namespace Deflate

/-! ### Numbers -/

@[simp] theorem length_littleEndian (width n : Nat) : (littleEndian width n).length = width := by
  simp [littleEndian]

theorem littleEndian_succ (width n : Nat) :
    littleEndian (width + 1) n = UInt8.ofNat n :: littleEndian width (n / 256) := by
  have hshift : ∀ i, n / Nat.pow 256 (i + 1) = n / 256 / Nat.pow 256 i := by
    intro i
    rw [Nat.div_div_eq_div_mul]
    exact congrArg (n / ·) (Nat.pow_succ'.trans rfl)
  rw [littleEndian, List.range_succ_eq_map, List.map_cons, List.map_map, littleEndian]
  rw [show n / Nat.pow 256 0 = n from Nat.div_one n]
  refine congrArg (UInt8.ofNat n :: ·) (List.map_congr_left fun i _ => ?_)
  exact congrArg UInt8.ofNat (hshift i)

/-- **A number is read** up to the width of its field. -/
theorem numberOf_littleEndian (width n : Nat) :
    numberOf (littleEndian width n) = n % Nat.pow 256 width := by
  induction width generalizing n with
  | zero => simp [littleEndian, numberOf, Nat.mod_one]
  | succ width ih =>
    have h : numberOf (littleEndian (width + 1) n) =
        (UInt8.ofNat n).toNat + 256 * numberOf (littleEndian width (n / 256)) := by
      rw [littleEndian_succ]
      rfl
    have hpow : Nat.pow 256 (width + 1) = 256 * Nat.pow 256 width := Nat.pow_succ'
    rw [h, ih, hpow, Nat.mod_mul, UInt8.toNat_ofNat']

theorem takeBytes_append {count : Nat} {xs : Bytes} (hxs : xs.length = count) (begun : List Bool)
    (ys : Bytes) : takeBytes count ⟨begun, xs ++ ys⟩ = some (xs, ⟨[], ys⟩) := by
  subst hxs
  simp [takeBytes]

theorem Reader.bind_of_some {α β : Type} {m : Reader α} {f : α → Reader β} {s s' : Bits} {a : α}
    (h : m s = some (a, s')) : (m >>= f) s = f a s' := by
  show (m s).bind (fun p => f p.1 p.2) = f a s'
  rw [h]
  rfl

end Deflate

namespace Gzip

open Deflate

/-! ### Blocks -/

/-- The greatest length of a block. -/
def blockSize : Nat := 65535

/-- One block: whether it is the last one, its length, the length's complement, and the data. -/
def storedBlock (isLast : Bool) (bs : Bytes) : Bytes :=
  (if isLast then 1 else 0) ::
    (littleEndian 2 bs.length ++ (littleEndian 2 (blockSize - bs.length) ++ bs))

/-- Data in blocks. -/
def store (bs : Bytes) : Bytes :=
  if _h : bs.length ≤ blockSize then storedBlock true bs
  else storedBlock false (bs.take blockSize) ++ store (bs.drop blockSize)
termination_by bs.length
decreasing_by (simp only [List.length_drop, blockSize] at *; omega)

@[simp] theorem length_storedBlock (isLast : Bool) (bs : Bytes) :
    (storedBlock isLast bs).length = bs.length + 5 := by
  simp only [storedBlock, List.length_cons, List.length_append, length_littleEndian]
  omega

/-- A block has five bytes more than its data. -/
theorem length_store_le (bs : Bytes) : 8 * (store bs).length ≤ 9 * bs.length + 40 := by
  induction bs using store.induct with
  | case1 bs h =>
    rw [store, dif_pos h, length_storedBlock]
    omega
  | case2 bs h ih =>
    rw [store, dif_neg h, List.length_append, length_storedBlock]
    rw [List.length_drop] at ih
    rw [List.length_take]
    simp only [blockSize] at *
    omega

end Gzip

namespace Deflate

open Gzip

/-- **One block is read** as it was written. -/
theorem readStored_storedBlock {bs : Bytes} (hbs : bs.length ≤ blockSize) (begun : List Bool)
    (out after : Bytes) :
    readStored out ⟨begun, littleEndian 2 bs.length ++
      (littleEndian 2 (blockSize - bs.length) ++ (bs ++ after))⟩ =
      some (bs.reverse ++ out, ⟨[], after⟩) := by
  -- Two bytes hold both numbers.
  have hcount : numberOf (littleEndian 2 bs.length) = bs.length := by
    rw [numberOf_littleEndian]
    exact Nat.mod_eq_of_lt (Nat.lt_succ_of_le hbs)
  have hcomplement : numberOf (littleEndian 2 (blockSize - bs.length)) = blockSize - bs.length := by
    rw [numberOf_littleEndian]
    exact Nat.mod_eq_of_lt (Nat.lt_succ_of_le (Nat.sub_le _ _))
  have hsum : (bs.length + (blockSize - bs.length) == 65535) = true := by
    rw [Nat.add_sub_of_le hbs]
    rfl
  rw [readStored, Reader.bind_of_some (takeBytes_append (length_littleEndian 2 _) begun _),
    Reader.bind_of_some (takeBytes_append (length_littleEndian 2 _) [] _)]
  rw [hcount, hcomplement, if_pos hsum, Reader.bind_of_some (takeBytes_append rfl [] after)]
  rfl

/-- The first byte of a block tells whether it is the last one. -/
theorem bit_storedBlock (isLast : Bool) (bs rest : Bytes) :
    bit ⟨[], storedBlock isLast bs ++ rest⟩ =
      some (isLast, ⟨List.replicate 7 false, littleEndian 2 bs.length ++
        (littleEndian 2 (blockSize - bs.length) ++ (bs ++ rest))⟩) := by
  cases isLast with
  | false => rfl
  | true => rfl

/-- Two bits that are not set tell that a block is stored, and the bits behind them are passed over. -/
theorem readBlock_storedBlock {bs : Bytes} (hbs : bs.length ≤ blockSize) (out after : Bytes) :
    readBlock out ⟨List.replicate 7 false, littleEndian 2 bs.length ++
      (littleEndian 2 (blockSize - bs.length) ++ (bs ++ after))⟩ =
      some (bs.reverse ++ out, ⟨[], after⟩) :=
  readStored_storedBlock hbs (List.replicate 5 false) out after

/-- **Reading blocks** stops behind the last one. -/
theorem readBlocks_store (bs out after : Bytes) {fuel : Nat} (hfuel : (store bs).length ≤ fuel) :
    readBlocks fuel out ⟨[], store bs ++ after⟩ = some (out.reverse ++ bs, ⟨[], after⟩) := by
  -- Each block takes one unit of fuel, and has five bytes at least.
  induction bs using store.induct generalizing out fuel with
  | case1 bs h =>
    rw [store, dif_pos h] at hfuel ⊢
    obtain ⟨fuel, rfl⟩ : ∃ n, fuel = n + 1 := ⟨fuel - 1, by rw [length_storedBlock] at hfuel; omega⟩
    rw [readBlocks, Reader.bind_of_some (bit_storedBlock true bs after),
      Reader.bind_of_some (readBlock_storedBlock h out after)]
    simp
    rfl
  | case2 bs h ih =>
    rw [store, dif_neg h] at hfuel ⊢
    rw [List.length_append, length_storedBlock] at hfuel
    obtain ⟨fuel, rfl⟩ : ∃ n, fuel = n + 1 := ⟨fuel - 1, by omega⟩
    rw [List.append_assoc, readBlocks, Reader.bind_of_some (bit_storedBlock false _ _),
      Reader.bind_of_some (readBlock_storedBlock (List.length_take_le _ _) out _)]
    simp only [Bool.false_eq_true, if_false]
    rw [ih _ (by omega)]
    simp

theorem inflate?_store (bs after : Bytes) : inflate? (store bs ++ after) = some (bs, after) := by
  have hfuel : (store bs).length ≤ 8 * (store bs ++ after).length := by
    rw [List.length_append]
    omega
  rw [inflate?, readBlocks_store bs [] after hfuel]
  rfl

end Deflate

namespace Gzip

open Deflate

/-! ### The writer -/

/-- **The writer of stored blocks.** -/
instance storedBlocks : Writer where
  compress bs := header ++ (store bs ++ trailer bs)
  header_prefix bs := List.prefix_append _ _
  decompress?_compress bs := by
    have hheader : ∀ rest, afterHeader? (header ++ rest) = some rest := by
      intro rest
      simp [afterHeader?, header, isGzip]
    simp [decompress?, hheader, inflate?_store]
  length_compress_le bs := by
    have hstore := length_store_le bs
    have hheader : header.length = 10 := rfl
    simp only [trailer, List.length_append, length_littleEndian, hheader]
    omega

end Gzip

end ReleasePublisher
