import ReleasePublisher.Proofs.Archive.Digest
import ReleasePublisher.Proofs.Files.Reading

/-!
# Packing the binary, step by step

Packing succeeds exactly where the binary is in order, the output directory can be made, the archive
can be written, and what was written can be read again.

## Main definitions

* `Packs c t t' a`: packing the binary of `c` leads from the files `t` to `t'` and tells of `a`

## Main results

* `package_ok`, `package_of_packs`: packing succeeds exactly where `Packs` holds
* `digestFile_of_contents`: size and digest are those of the contents as a whole
* `Packs.contents`: the archive that is told of is the one on the disk
-/

namespace ReleasePublisher

/-- **Packing the binary** leads from the files `t` to the files `t'` and tells of the archive `a`. -/
structure Packs [Gzip.Writer] (c : Config) (t t' : FileTree) (a : PackagedArchive) : Prop where
  source : sourceFault? t (Layout.ofConfig c) = none
  written : ∃ t₁, t.makeDirectories c.outputDir = (t₁, .ok ()) ∧
    writeArchive t₁ (Layout.ofConfig c) = (t', .ok ())
  digest : digestFile t' (Layout.ofConfig c).output = .ok (a.size, a.sha256)
  told : a =
    { path := (Layout.ofConfig c).output
      fileName := (Layout.ofConfig c).archiveName
      entry := shownEntry (Layout.ofConfig c).entry
      size := a.size
      sha256 := a.sha256 }

theorem withContext_ok {α : Type} {context : String} {r : FileTree × Except IoError α} {a : α}
    (h : (withContext context r).2 = .ok a) : r = ((withContext context r).1, .ok a) := by
  rcases r with ⟨t, e | b⟩
  · cases h
  · cases h
    rfl

/-- **Packing succeeds only** in this way. -/
theorem package_ok [Gzip.Writer] {c : Config} {s s' : Surroundings} {a : PackagedArchive}
    (h : package c s = (.ok a, s')) : Packs c s.files s'.files a := by
  obtain ⟨t, s₀, ht, h⟩ := Run.bind_ok h
  rw [Run.files_apply] at ht
  cases ht
  cases hf : sourceFault? s.files (Layout.ofConfig c) with
  | some e => simp [hf] at h
  | none =>
    simp only [hf] at h
    obtain ⟨_, s₁, h₁, h⟩ := Run.bind_ok h
    obtain ⟨_, s₂, h₂, h⟩ := Run.bind_ok h
    obtain ⟨_, s₃, h₃, h⟩ := Run.bind_ok h
    obtain ⟨t, s₄, h₄, h⟩ := Run.bind_ok h
    obtain ⟨⟨size, sha256⟩, s₅, h₅, h⟩ := Run.bind_ok h
    obtain ⟨_, s₆, h₆, h⟩ := Run.bind_ok h
    simp only [Run.note_apply, Run.files_apply, Run.changeFiles_apply, Run.ofExcept_apply,
      Prod.mk.injEq] at h₁ h₂ h₃ h₄ h₅ h₆
    obtain ⟨-, rfl⟩ := h₁
    obtain ⟨h₂, rfl⟩ := h₂
    obtain ⟨h₃, rfl⟩ := h₃
    obtain ⟨ht, rfl⟩ := h₄
    cases ht
    obtain ⟨h₅, rfl⟩ := h₅
    obtain ⟨-, rfl⟩ := h₆
    cases h
    exact ⟨hf, ⟨_, withContext_ok h₂, withContext_ok h₃⟩, h₅, rfl⟩

/-- **Packing succeeds always** in this way. -/
theorem package_of_packs [Gzip.Writer] {c : Config} {s : Surroundings} {t : FileTree}
    {a : PackagedArchive}
    (h : Packs c s.files t a) : (package c s).1 = .ok a ∧ (package c s).2.files = t := by
  obtain ⟨hf, ⟨t₁, h₁, h₂⟩, hd, ha⟩ := h
  rw [package, Run.bind_of_ok (Run.files_apply s)]
  simp only [hf]
  rw [Run.bind_of_ok (Run.note_apply _ _), Run.bind_apply, Run.changeFiles_apply]
  simp only [h₁, withContext, mapError_ok]
  rw [Run.bind_apply, Run.changeFiles_apply]
  simp only [h₂, mapError_ok]
  rw [Run.bind_of_ok (Run.files_apply _), Run.bind_apply, Run.ofExcept_apply, hd]
  exact ⟨congrArg Except.ok ha.symm, rfl⟩

/-- **Size and digest** of a file that is copied in pieces are those of its contents. -/
theorem digestFile_of_contents {t : FileTree} {p : Path} {node : FileNode} {bytes : Bytes}
    (hn : t.openRead p = .ok node) (hb : FileTree.contents node = .ok bytes) :
    digestFile t p = .ok (bytes.length, Sha256.hexDigest bytes) := by
  have hfuel : bytes.length < (Source.ofNode node).left + 1 := by
    rw [Source.left_ofNode hb]
    omega
  have hsize : 0 < copySize := by decide
  obtain ⟨ps, hcopy, hflat⟩ := copy_of_holds hsize
    (Source.ofNode_holds hb) hfuel Sha256.Hasher.begin
  unfold digestFile
  rw [hn]
  dsimp only
  rw [hcopy]
  dsimp only
  rw [Sha256.Hasher.finish_foldl, hflat]
  rfl

/-- A file whose contents cannot be read has no digest. -/
theorem contents_of_digestFile {t : FileTree} {p : Path} {r : Nat × String}
    (h : digestFile t p = .ok r) :
    ∃ node bytes, t.openRead p = .ok node ∧ FileTree.contents node = .ok bytes := by
  unfold digestFile at h
  split at h
  · cases h
  · rename_i node hn
    cases hb : FileTree.contents node with
    | ok bytes => exact ⟨node, bytes, hn, hb⟩
    | error e =>
      have hsource : Source.ofNode node = ⟨[], [.failure e]⟩ := by rw [Source.ofNode, hb]
      rw [hsource] at h
      cases h

/-- **The archive that is told of** is the one on the disk. -/
theorem Packs.contents [Gzip.Writer] {c : Config} {t t' : FileTree} {a : PackagedArchive}
    (h : Packs c t t' a) :
    ∃ node bytes, t'.openRead a.path = .ok node ∧ FileTree.contents node = .ok bytes ∧
      a.size = bytes.length ∧ a.sha256 = Sha256.hexDigest bytes := by
  have hd := h.digest
  have hp : a.path = (Layout.ofConfig c).output := by rw [h.told]
  rw [hp]
  obtain ⟨node, bytes, hn, hb⟩ := contents_of_digestFile hd
  rw [digestFile_of_contents hn hb] at hd
  obtain ⟨hsize, hsha⟩ := Prod.mk.inj (Except.ok.inj hd)
  exact ⟨node, bytes, hn, hb, hsize.symm, hsha.symm⟩

end ReleasePublisher
