import ReleasePublisher.Archive.Sha256

/-!
# Digests of messages in pieces

A hasher stirs each block as soon as it is full and keeps what there is of the next one. However a
message is cut into pieces, its digest is that of the whole message.

## Main definitions

* `Sha256.Hasher.Took h bs`: the hasher has taken the message `bs`

## Main results

* `Sha256.stirAll_append`: the full blocks of a message are stirred before what follows them
* `Sha256.Hasher.finish_foldl`: the digest of the pieces is the digest of the whole message
-/

namespace ReleasePublisher.Sha256

/-- **The full blocks of a message** are stirred before what follows them. -/
theorem stirAll_append (s : Words) (m bs : Bytes) :
    stirAll s (m ++ bs) = stirAll (stirAll s m) (m.drop (m.length / 64 * 64) ++ bs) := by
  induction s, m using stirAll.induct with
  | case1 s m hlt =>
    rw [stirAll.eq_1 s m, dif_pos hlt, Nat.div_eq_of_lt hlt]
    rfl
  | case2 s m hge ih =>
    have hlen : ¬ (m ++ bs).length < 64 := by
      rw [List.length_append]
      omega
    have htake : (m ++ bs).take 64 = m.take 64 := List.take_append_of_le_length (by omega)
    have hdrop : (m ++ bs).drop 64 = m.drop 64 ++ bs := List.drop_append_of_le_length (by omega)
    have hblocks : m.length / 64 * 64 = 64 + (m.drop 64).length / 64 * 64 := by
      rw [List.length_drop]
      omega
    rw [stirAll.eq_1 s (m ++ bs), dif_neg hlen, htake, hdrop, ih, stirAll.eq_1 s m, dif_neg hge,
      hblocks, List.drop_drop]

namespace Hasher

/-- The hasher has taken this message. -/
structure Took (h : Hasher) (bs : Bytes) : Prop where
  words : h.words = stirAll start bs
  block : h.block = bs.drop (bs.length / 64 * 64)
  length : h.length = bs.length

theorem took_begin : begin.Took [] := by
  constructor
  · rw [stirAll]
    rfl
  · rfl
  · rfl

/-- **One more piece** makes the message longer. -/
theorem Took.update {h : Hasher} {bs : Bytes} (ht : h.Took bs) (piece : Bytes) :
    (h.update piece).Took (bs ++ piece) := by
  have hle : bs.length / 64 * 64 ≤ bs.length := Nat.div_mul_le_self _ _
  constructor
  · rw [stirAll_append, ← ht.words, ← ht.block]
    rfl
  · have hblocks : (bs ++ piece).length / 64 * 64 =
        bs.length / 64 * 64 + (h.block ++ piece).length / 64 * 64 := by
      rw [ht.block, List.length_append, List.length_append, List.length_drop]
      omega
    show (h.block ++ piece).drop ((h.block ++ piece).length / 64 * 64) = _
    rw [hblocks, ← List.drop_drop, List.drop_append_of_le_length hle, ← ht.block]
  · show h.length + piece.length = _
    rw [ht.length, List.length_append]

theorem Took.foldl {h : Hasher} {bs : Bytes} (ht : h.Took bs) (pieces : List Bytes) :
    (pieces.foldl Hasher.update h).Took (bs ++ pieces.flatten) := by
  induction pieces generalizing h bs with
  | nil => simpa using ht
  | cons piece pieces ih =>
    have hrest := ih (ht.update piece)
    rw [List.append_assoc] at hrest
    exact hrest

theorem Took.finish {h : Hasher} {bs : Bytes} (ht : h.Took bs) : h.finish = digest bs := by
  rw [digest, pad, stirAll_append, ← ht.words, ← ht.block, ← ht.length]
  rfl

/-- **The digest of the pieces** is the digest of the whole message. -/
theorem finish_foldl (pieces : List Bytes) :
    (pieces.foldl Hasher.update begin).finish = digest pieces.flatten := by
  have ht := took_begin.foldl pieces
  rw [List.nil_append] at ht
  exact ht.finish

end Hasher

end ReleasePublisher.Sha256
