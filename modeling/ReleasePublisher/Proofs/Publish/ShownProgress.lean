import Mathlib.Algebra.GroupWithZero.Nat
import ReleasePublisher.Proofs.Files.Reading
import ReleasePublisher.Release.Publish

/-!
# Showing the progress of an upload

A metered reader hands out what the reader inside it hands out, and reports the size of each piece that is
not empty. Nothing else depends on the reports, so that publishing does the same whether or not its progress
is shown.

## Main definitions

* `reportsOf r`: what a metered reader reports of one read
* `handedOut rs`: the bytes that reads have handed out
* `IsTransparent read s sizes`: in reads of these sizes, metering the reader changes nothing

## Main results

* `metered_apply`: one read of a metered reader
* `runReads_metered`: any number of reads of a metered reader
* `publish_showsProgress`: publishing does the same with its progress shown
* `metering_isTransparent`: metering changes nothing, for all readers and for all runs of publishing
-/

namespace ReleasePublisher

variable {σ : Type}

/-! ### Single reads -/

/-- What a metered reader reports of a read: the size of its piece. An empty piece is not reported, and
neither is a failure. -/
def reportsOf : Except IoError Bytes → List Nat
  | .ok bytes => if 0 < bytes.length then [bytes.length] else []
  | .error _ => []

/-- The bytes that reads have handed out. -/
def handedOut (rs : List (Except IoError Bytes)) : Bytes :=
  rs.flatMap fun r => (r.toOption).getD []

/-- **One read of a metered reader** is one of the reader inside it, with its report. -/
theorem metered_apply (read : Read σ) (m : Metered σ) (n : Nat) :
    metered read m n =
      ((read m.inner n).1, ⟨(read m.inner n).2, m.reported ++ reportsOf (read m.inner n).1⟩) := by
  rcases m with ⟨s, reported⟩
  rcases h : read s n with ⟨e | bytes, s'⟩
  · simp [metered, h, reportsOf]
  · by_cases hbytes : 0 < bytes.length <;> simp [metered, h, reportsOf, hbytes]

/-- What is reported of a read is the number of bytes that it hands out. -/
theorem sum_reportsOf (r : Except IoError Bytes) : (reportsOf r).sum = (handedOut [r]).length := by
  cases r with
  | error e => rfl
  | ok bytes => cases bytes <;> simp [reportsOf, handedOut, Except.toOption]

/-! ### Reads one after the other -/

/-- **Reads of a metered reader**, one after the other, are those of the reader inside it. -/
theorem runReads_metered (read : Read σ) (m : Metered σ) (sizes : List Nat) :
    runReads (metered read) m sizes =
      ((runReads read m.inner sizes).1,
        ⟨(runReads read m.inner sizes).2,
          m.reported ++ (runReads read m.inner sizes).1.flatMap reportsOf⟩) := by
  induction sizes generalizing m with
  | nil => simp [runReads]
  | cons n sizes ih =>
    rw [runReads, metered_apply]
    dsimp only
    rw [ih]
    simp [runReads]

/-- The reports add up to the bytes that were handed out. -/
theorem sum_flatMap_reportsOf (rs : List (Except IoError Bytes)) :
    (rs.flatMap reportsOf).sum = (handedOut rs).length := by
  induction rs with
  | nil => rfl
  | cons r rs ih =>
    have hcons : handedOut (r :: rs) = handedOut [r] ++ handedOut rs := by simp [handedOut]
    rw [List.flatMap_cons, List.sum_append, sum_reportsOf, ih, hcons, List.length_append]

/-- **In reads of these sizes, metering the reader changes nothing**: each read has the outcome that it has
without, and the reader inside ends in the same state. What is reported are the sizes of the pieces that are
not empty, one after the other. -/
structure IsTransparent (read : Read σ) (s : σ) (sizes : List Nat) : Prop where
  outcomes_eq : (runReads (metered read) ⟨s, []⟩ sizes).1 = (runReads read s sizes).1
  inner_eq : (runReads (metered read) ⟨s, []⟩ sizes).2.inner = (runReads read s sizes).2
  reported_eq : (runReads (metered read) ⟨s, []⟩ sizes).2.reported =
    (runReads read s sizes).1.flatMap reportsOf
  sum_reported : (runReads (metered read) ⟨s, []⟩ sizes).2.reported.sum =
    (handedOut (runReads (metered read) ⟨s, []⟩ sizes).1).length

theorem runReads_isTransparent (read : Read σ) (s : σ) (sizes : List Nat) :
    IsTransparent read s sizes := by
  have hrun := runReads_metered read ⟨s, []⟩ sizes
  rw [List.nil_append] at hrun
  constructor
  · rw [hrun]
  · rw [hrun]
  · rw [hrun]
  · rw [hrun]
    exact sum_flatMap_reportsOf _

/-! ### Uploads -/

/-- **The body of an upload** is the same with its progress shown. -/
theorem HostClient.uploadBody_showsProgress (node : FileNode) (length : Nat) :
    uploadBody node length true = uploadBody node length false := by
  rw [uploadBody, uploadBody]
  exact congrArg (Payload.mk length) (readPieces_metered _ _ _ _ _)

theorem HostClient.uploadAsset_showsProgress (c : HostClient) (release : Release)
    (archive : PackagedArchive) (contentType : String) :
    c.uploadAsset release archive contentType true = c.uploadAsset release archive contentType false := by
  simp only [uploadAsset, uploadDraft, uploadBody_showsProgress]

/-- **Publishing does the same with its progress shown**: the outcome, the files, the requests and the log. -/
theorem publish_showsProgress [Gzip.Writer] (c : Config) (dryRun : Bool) :
    publish c ⟨dryRun, true⟩ = publish c ⟨dryRun, false⟩ := by
  simp only [publish, uploadUnlessDry, HostClient.uploadAsset_showsProgress]

/-- **Metering changes nothing.** Whatever a reader does and however it is read, in reads of any sizes with
failures and empty pieces among them: a metered reader hands out and leaves behind what the reader inside it
does, reports each piece that is not empty once, and the reports add up to the bytes that were handed out.
Hence publishing ends in the same way whether or not its progress is shown, for every configuration and in
all surroundings. -/
theorem metering_isTransparent [Gzip.Writer] :
    (∀ (σ : Type) (read : Read σ) (s : σ) (sizes : List Nat), IsTransparent read s sizes) ∧
      ∀ (c : Config) (dryRun : Bool) (s : Surroundings),
        publish c ⟨dryRun, true⟩ s = publish c ⟨dryRun, false⟩ s :=
  ⟨fun _ read s sizes => runReads_isTransparent read s sizes,
    fun c dryRun s => congrFun (publish_showsProgress c dryRun) s⟩

/-- Three reads of a source: a whole piece, a failure, and a piece that does not fit. -/
example :
    (runReads (metered Source.read) ⟨⟨[], [.data [1, 2], .failure .notText, .data [3, 4, 5]]⟩, []⟩
      [4, 4, 2]).2.reported = [2, 2] := by
  decide

end ReleasePublisher
