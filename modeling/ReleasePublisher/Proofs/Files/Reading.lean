import ReleasePublisher.Release.Host

/-!
# Reading a file to its end

The body of an upload is read in pieces while it is sent, and the archive is copied to its digest in
pieces. The pieces of a file are its contents, whatever their size and whether or not the reader is
metered.

## Main definitions

* `Source.Holds s bs`: the source hands out the bytes `bs` and then nothing

## Main results

* `readPieces_metered`: a metered reader gives the same pieces
* `readPieces_of_holds`: the pieces of a source are what it holds
* `copy_of_holds`: what a source holds is copied in pieces
* `uploadBody_pieces`: the pieces of an upload are the contents of the file
-/

namespace ReleasePublisher

/-- A file that is read can be opened, and its contents are what is read. -/
theorem FileTree.read_eq_ok {t : FileTree} {p : Path} {bytes : Bytes} (h : t.read p = .ok bytes) :
    ∃ node, t.openRead p = .ok node ∧ contents node = .ok bytes := by
  unfold read at h
  cases hnode : t.openRead p with
  | error e =>
    rw [hnode] at h
    cases h
  | ok node =>
    rw [hnode] at h
    exact ⟨node, rfl, h⟩

theorem metered_fst {σ : Type} (read : Read σ) (m : Metered σ) (n : Nat) :
    (metered read m n).1 = (read m.inner n).1 := by
  rcases m with ⟨s, reported⟩
  rcases h : read s n with ⟨e | bs, s'⟩ <;> simp [metered, h]

theorem metered_inner {σ : Type} (read : Read σ) (m : Metered σ) (n : Nat) :
    (metered read m n).2.inner = (read m.inner n).2 := by
  rcases m with ⟨s, reported⟩
  rcases h : read s n with ⟨e | bs, s'⟩ <;> simp [metered, h]

/-- **A metered reader gives the same pieces** as the reader that it meters. -/
theorem readPieces_metered {σ : Type} (read : Read σ) (size fuel left : Nat) (m : Metered σ) :
    readPieces (metered read) size fuel left m = readPieces read size fuel left m.inner := by
  induction fuel generalizing left m with
  | zero => rfl
  | succ fuel ih =>
    cases left with
    | zero => rfl
    | succ left =>
      have h₁ := metered_fst read m size
      have h₂ := metered_inner read m size
      rcases hm : metered read m size with ⟨r, m'⟩
      rcases hr : read m.inner size with ⟨r', s'⟩
      simp only [hm, hr] at h₁ h₂
      subst h₁ h₂
      rcases r with e | _ | ⟨b, bs⟩ <;> simp [readPieces, hm, hr, ih]

namespace Source

/-- The source hands out these bytes and then nothing. -/
def Holds (s : Source) (bs : Bytes) : Prop :=
  s = ⟨[], [.data bs]⟩ ∨ s = ⟨bs, []⟩

theorem Holds.read {s : Source} {bs : Bytes} (h : s.Holds bs) (n : Nat) :
    (Source.read s n).1 = .ok (bs.take n) ∧ (Source.read s n).2.Holds (bs.drop n) := by
  rcases h with rfl | rfl
  · exact ⟨rfl, .inr rfl⟩
  · cases bs with
    | nil => simp [Source.read, Holds]
    | cons b bs => exact ⟨rfl, .inr rfl⟩

theorem ofNode_holds {node : FileNode} {bs : Bytes} (h : FileTree.contents node = .ok bs) :
    (ofNode node).Holds bs := by
  simp [ofNode, h, Holds]

theorem left_ofNode {node : FileNode} {bs : Bytes} (h : FileTree.contents node = .ok bs) :
    (ofNode node).left = bs.length := by
  simp [ofNode, h, left]

end Source

/-- **The pieces of a source** are what it holds. -/
theorem readPieces_of_holds {size fuel : Nat} {s : Source} {bs : Bytes} (hs : 0 < size)
    (h : s.Holds bs) (hf : bs.length ≤ fuel) :
    ∃ ps, readPieces Source.read size fuel bs.length s = .ok ps ∧ ps.flatten = bs := by
  induction fuel generalizing s bs with
  | zero =>
    obtain rfl : bs = [] := List.eq_nil_of_length_eq_zero (Nat.le_zero.mp hf)
    exact ⟨[], rfl, rfl⟩
  | succ fuel ih =>
    cases bs with
    | nil => exact ⟨[], rfl, rfl⟩
    | cons b bs =>
      obtain ⟨hr, hh⟩ := h.read size
      rcases hread : Source.read s size with ⟨r, s'⟩
      simp only [hread] at hr hh
      -- A piece of at least one byte is taken, so that less is left than before.
      obtain ⟨size, rfl⟩ : ∃ k, size = k + 1 := ⟨size - 1, by omega⟩
      have hl : ((b :: bs).drop (size + 1)).length = bs.length - min size bs.length := by
        simp
        omega
      obtain ⟨ps, hps, hflat⟩ := ih hh (by simp at hf ⊢; omega)
      rw [hl] at hps
      refine ⟨(b :: bs.take size) :: ps, ?_, ?_⟩
      · simp [readPieces, hread, hr, hps, Except.map]
      · rw [List.flatten_cons, hflat]
        simp

/-- **What a source holds** is copied in pieces, and counted. -/
theorem copy_of_holds {ω : Type} {write : ω → Bytes → ω} {size fuel : Nat} {s : Source} {bs : Bytes}
    (hs : 0 < size) (h : s.Holds bs) (hf : bs.length < fuel) (w : ω) :
    ∃ ps : List Bytes, copy Source.read write size fuel s w = .ok (bs.length, ps.foldl write w) ∧
      ps.flatten = bs := by
  induction fuel generalizing s bs w with
  | zero => exact absurd hf (Nat.not_lt_zero _)
  | succ fuel ih =>
    obtain ⟨hr, hh⟩ := h.read size
    rcases hread : Source.read s size with ⟨r, s'⟩
    simp only [hread] at hr hh
    subst hr
    cases bs with
    | nil => exact ⟨[], by simp [copy, hread], rfl⟩
    | cons b bs =>
      -- A piece of at least one byte is taken, so that less is left than before.
      obtain ⟨size, rfl⟩ : ∃ k, size = k + 1 := ⟨size - 1, by omega⟩
      have hl : ((b :: bs).drop (size + 1)).length < fuel := by
        simp at hf ⊢
        omega
      obtain ⟨ps, hps, hflat⟩ := ih hh hl (write w ((b :: bs).take (size + 1)))
      have hcount : ((b :: bs).take (size + 1)).length + ((b :: bs).drop (size + 1)).length =
          (b :: bs).length := by
        rw [← List.length_append, List.take_append_drop]
      refine ⟨(b :: bs).take (size + 1) :: ps, ?_, ?_⟩
      · rw [copy, hread]
        show (copy Source.read write (size + 1) fuel s' (write w ((b :: bs).take (size + 1)))).map _ = _
        rw [hps]
        exact congrArg (fun n => Except.ok (n, _)) hcount
      · rw [List.flatten_cons, hflat, List.take_append_drop]

/-- **The pieces of an upload** are the contents of the file, also where its progress is shown. -/
theorem uploadBody_pieces {node : FileNode} {bs : Bytes} (h : FileTree.contents node = .ok bs)
    (showsProgress : Bool) :
    ∃ ps, (HostClient.uploadBody node bs.length showsProgress).pieces = .ok ps ∧
      ps.flatten = bs := by
  have hp : (HostClient.uploadBody node bs.length showsProgress).pieces =
      readPieces Source.read (pieceSize bs.length) bs.length bs.length (Source.ofNode node) := by
    cases showsProgress with
    | true => exact readPieces_metered _ _ _ _ _
    | false => rfl
  rw [hp]
  cases bs with
  | nil => exact ⟨[], rfl, rfl⟩
  | cons b bs =>
    have hsize : 0 < pieceSize (b :: bs).length :=
      Nat.lt_min.mpr ⟨Nat.succ_pos bs.length, by decide⟩
    exact readPieces_of_holds hsize (Source.ofNode_holds h) (Nat.le_refl _)

theorem uploadBody_length (node : FileNode) (length : Nat) (showsProgress : Bool) :
    (HostClient.uploadBody node length showsProgress).length = length := by
  cases showsProgress <;> rfl

end ReleasePublisher
