import ReleasePublisher.Files.Tree

/-!
# Readers

A reader hands out its bytes in pieces, and a read asks for a piece of at most a given size. A read
may also fail, and later reads may succeed again. A metered reader reports the size of each piece
that it hands out.

## Main definitions

* `Read σ`: one read of a reader with states `σ`
* `Source`: a reader over a list of pieces and failures
* `Source.read`: reads from a source
* `metered read`: the reader that reads as `read` does and keeps the sizes it reports
* `copy read write size`: hands what a reader holds to a writer
* `runReads read s sizes`: the outcomes of reads of these sizes, one after the other
-/

namespace ReleasePublisher

/-- One read: the greatest size of the piece and the reader's state lead to a piece, or a failure,
and the next state. An empty piece is the end. -/
abbrev Read (σ : Type) := σ → Nat → Except IoError Bytes × σ

/-- What a source holds. -/
inductive SourcePiece where
  | data (bytes : Bytes)
  /-- A read that fails once. -/
  | failure (e : IoError)
  deriving DecidableEq, Repr

/-- A reader over a list of pieces. -/
structure Source where
  /-- What is left of the piece begun last. -/
  pending : Bytes
  pieces : List SourcePiece
  deriving DecidableEq, Repr

namespace Source

/-- Reads from a source. A piece that does not fit is continued by the next read; the next piece is
begun when nothing is left over, also by a read of no bytes. -/
def read : Read Source
  | ⟨[], []⟩, _ => (.ok [], ⟨[], []⟩)
  | ⟨[], .data bytes :: pieces⟩, n => (.ok (bytes.take n), ⟨bytes.drop n, pieces⟩)
  | ⟨[], .failure e :: pieces⟩, _ => (.error e, ⟨[], pieces⟩)
  | ⟨pending, pieces⟩, n => (.ok (pending.take n), ⟨pending.drop n, pieces⟩)

/-- The source of an opened node. -/
def ofNode (n : FileNode) : Source :=
  match FileTree.contents n with
  | .ok bytes => ⟨[], [.data bytes]⟩
  | .error e => ⟨[], [.failure e]⟩

/-- The number of bytes that are left. -/
def left (s : Source) : Nat :=
  s.pieces.foldl (fun n p => match p with
    | .data bytes => n + bytes.length
    | .failure _ => n) s.pending.length

end Source

/-- Hands the pieces of a reader to a writer, up to the end, and counts their bytes. Each piece but the
last holds a byte, so fuel beyond the number of bytes that are left suffices. -/
def copy {σ ω : Type} (read : Read σ) (write : ω → Bytes → ω) (size : Nat) :
    Nat → σ → ω → Except IoError (Nat × ω)
  | 0, _, w => .ok (0, w)
  | fuel + 1, s, w =>
    match read s size with
    | (.error e, _) => .error e
    | (.ok [], _) => .ok (0, w)
    | (.ok piece, s) =>
      (copy read write size fuel s (write w piece)).map fun (n, w) => (piece.length + n, w)

/-- A reader together with the sizes it has reported. -/
structure Metered (σ : Type) where
  inner : σ
  reported : List Nat
  deriving DecidableEq, Repr

/-- The reader that reads as `read` does and reports the size of each piece that is not empty. -/
def metered {σ : Type} (read : Read σ) : Read (Metered σ)
  | ⟨s, reported⟩, n =>
    match read s n with
    | (.ok bytes, s) =>
      (.ok bytes, ⟨s, if 0 < bytes.length then reported ++ [bytes.length] else reported⟩)
    | (.error e, s) => (.error e, ⟨s, reported⟩)

/-- The outcomes of reads of these sizes, one after the other, and the last state. -/
def runReads {σ : Type} (read : Read σ) (s : σ) : List Nat → List (Except IoError Bytes) × σ
  | [] => ([], s)
  | n :: sizes =>
    let (r, s) := read s n
    let (rs, s) := runReads read s sizes
    (r :: rs, s)

end ReleasePublisher
