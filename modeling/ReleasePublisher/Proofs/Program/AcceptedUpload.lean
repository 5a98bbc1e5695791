import ReleasePublisher.Program
import ReleasePublisher.Proofs.Publish.Upload

/-!
# Reporting an accepted upload

Once the host has accepted an upload, only the report is left to be written. Lines can always be
written, and an object where the path of the archive is text; there the program succeeds and tells of
the asset. Elsewhere it fails although the upload was accepted.

## Main definitions

* `Reports json asset output`: the output tells of the asset

## Main results

* `run_cases`: how a run of the program follows from what its command does
* `PublishReport.report_cases`: when a report can be written
* `perform_publish_cases`: what a publishing command does
* `exitCode_of_isAnswered`: the program succeeds after an accepted upload exactly where the report can
  be written
-/

namespace ReleasePublisher

open CommandLine

/-! ### Runs of the program -/

/-- **A run of the program** with these words does what they ask for in the working directory, if there
is one, and shows the outcome. -/
theorem run_cases [Gzip.Writer] {start : Start} {i : Invocation} (hi : parse start.words = .ok i)
    (s : Surroundings) :
    (∃ errors, run start s = (⟨1, "", errors, []⟩, s)) ∨
    ∃ root r s', s.files.workingDirectory = .ok root ∧
      perform i root start.environment start.isWatched s = (r, s') ∧
      (run start s).2.network = s'.network ∧
      ((∃ output, r = .ok output ∧ (run start s).1.exitCode = 0 ∧
          (run start s).1.output = output) ∨
        ∃ e, r = .error e ∧ (run start s).1.exitCode = e.exitCode ∧ (run start s).1.output = "" ∧
          (run start s).1.errors = failureText e) := by
  rw [run]
  simp only [hi, invoke]
  cases hr : s.files.workingDirectory with
  | error e => exact .inl ⟨_, rfl⟩
  | ok root =>
    dsimp only
    rcases hp : perform i root start.environment start.isWatched s with ⟨e | output, s'⟩
    · exact .inr ⟨root, _, s', rfl, hp, rfl, .inr ⟨e, rfl, rfl, rfl, rfl⟩⟩
    · exact .inr ⟨root, _, s', rfl, hp, rfl, .inl ⟨output, rfl, rfl, rfl⟩⟩

theorem resolveIn_cases (root : Path) (overrides : Overrides) (env : Environment)
    (s : Surroundings) :
    (∃ e, resolveIn root overrides env s = (.error e, s)) ∨
    ∃ c s', resolve s.files root overrides env = .ok c ∧
      resolveIn root overrides env s = (.ok c, s') ∧ s'.network = s.network := by
  rw [resolveIn, Run.bind_of_ok (Run.files_apply s)]
  cases hr : resolve s.files root overrides env with
  | error e => exact .inl ⟨e, rfl⟩
  | ok c => exact .inr ⟨c, _, rfl, rfl, rfl⟩

/-! ### Reports -/

/-- **The output tells of the asset**: as a member of an object, or in its last lines. -/
def Reports (json : Bool) (asset : Asset) (output : String) : Prop :=
  if json then ∃ v : Json, output = v.pretty ++ "\n" ∧ v.member? "asset" = some asset.toJson
  else ∃ above, output = above ++ linesOf
    (("✅ Uploaded " ++ asset.name ++ " (asset id " ++ toString asset.id ++ ")") ::
      asset.downloadUrl.toList.map fun u => "   " ++ u)

/-- **A report can be written** as lines, and as an object where the path of the archive is text. -/
theorem PublishReport.report_cases {r : PublishReport} {asset : Asset} (ha : r.asset = some asset)
    (json : Bool) :
    (json = true ∧ r.archive.path.text? = none ∧ r.report json = .error pathNotText) ∨
    ((json = true → r.archive.path.text?.isSome = true) ∧
      ∃ output, r.report json = .ok output ∧ Reports json asset output) := by
  cases json with
  | false =>
    refine .inr ⟨by simp, linesOf r.lines, rfl, ?_⟩
    rw [Reports, if_neg Bool.false_ne_true, lines, linesOf_append, assetLines, ha]
    exact ⟨_, rfl⟩
  | true =>
    cases hp : r.archive.path.text? with
    | none => exact .inl ⟨rfl, rfl, by simp [report, toJson, PackagedArchive.toJson, hp, jsonReport]⟩
    | some path =>
      obtain ⟨v, hv⟩ : ∃ v, r.toJson = some (r.toJsonWith v) :=
        ⟨_, by rw [toJson, PackagedArchive.toJson, hp]; rfl⟩
      refine .inr ⟨by simp, _, by rw [report, if_pos rfl, hv]; rfl, ?_⟩
      rw [Reports, if_pos rfl]
      refine ⟨_, rfl, ?_⟩
      cases hu : r.releaseUrl <;> simp [toJsonWith, Json.member?, Json.lookup, ha, hu]

/-! ### Publishing -/

/-- **A publishing command that is not dry** fails before it has sent anything, or publishes with the
resolved configuration and reports that. -/
theorem perform_publish_cases [Gzip.Writer] {i : Invocation} {json : Bool}
    (hc : i.command = .publish false json)
    (root : Path) (env : Environment) (isWatched : Bool) (s : Surroundings) :
    (∃ e, perform i root env isWatched s = (.error e, s)) ∨
    ∃ c o s₀ r s', resolve s.files root i.overrides env = .ok c ∧ o.dryRun = false ∧
      s₀.network = s.network ∧ publish c o s₀ = (r, s') ∧
      perform i root env isWatched s = (r.bind (·.report json), s') := by
  rw [perform]
  rcases resolveIn_cases root i.overrides env s with ⟨e, he⟩ | ⟨c, s₀, hr, hc', hn⟩
  · exact .inl ⟨e, Run.bind_of_error he⟩
  · rw [Run.bind_of_ok hc', hc, carryOut]
    rcases hp : publish c ⟨false, isWatched && !json⟩ s₀ with ⟨e | r, s'⟩
    · exact .inr ⟨c, _, s₀, _, s', hr, rfl, hn, hp, Run.bind_of_error hp⟩
    · exact .inr ⟨c, _, s₀, _, s', hr, rfl, hn, hp, by rw [Run.bind_of_ok hp]; rfl⟩

/-- **After an accepted upload the program succeeds exactly where the report can be written.** Whatever
the words, the environment, the files and the answers are: if the answer to the upload describes an
asset, then a configuration was found, and the program exits with 0 exactly where no object is asked
for or the path of the archive is text. Then it reports the asset; else it fails with nothing to tell
but that path. -/
theorem exitCode_of_isAnswered [Gzip.Writer] {start : Start} {s : Surroundings} {i : Invocation}
    {json : Bool}
    {asset : Asset} (hi : parse start.words = .ok i) (hc : i.command = .publish false json)
    (ha : IsAnswered s.network (run start s).2.network asset) :
    ∃ root c, s.files.workingDirectory = .ok root ∧
      resolve s.files root i.overrides start.environment = .ok c ∧
      ((run start s).1.exitCode = 0 ↔
        (json = true → (Layout.ofConfig c).output.text?.isSome = true)) ∧
      ((run start s).1.exitCode = 0 → Reports json asset (run start s).1.output) ∧
      ((run start s).1.exitCode ≠ 0 → (run start s).1.exitCode = 1 ∧
        (run start s).1.output = "" ∧ (run start s).1.errors = failureText pathNotText) := by
  rcases run_cases hi s with ⟨errors, hrun⟩ | ⟨root, r, s', hroot, hp, hnet, hrun⟩
  · rw [hrun] at ha
    exact absurd ha (not_isAnswered_self _ _)
  rw [hnet] at ha
  rcases perform_publish_cases hc root start.environment start.isWatched s with
    ⟨e, he⟩ | ⟨c, o, s₀, r', s₁, hr, hd, hn, hpub, hp'⟩
  · obtain rfl : s = s' := (Prod.mk.inj (he.symm.trans hp)).2
    exact absurd ha (not_isAnswered_self _ _)
  obtain ⟨rfl, rfl⟩ := Prod.mk.inj (hp'.symm.trans hp)
  refine ⟨root, c, hroot, hr, ?_⟩
  obtain ⟨report, hok, hasset, hpath⟩ := publish_of_isAnswered hd (by rw [hn, hpub]; exact ha)
  obtain rfl : r' = .ok report := by rw [← hok, hpub]
  rcases report.report_cases hasset json with ⟨rfl, htext, hrep⟩ | ⟨htext, output, hrep, htells⟩
  · -- The report cannot be written, and that is how the run fails.
    rcases hrun with ⟨output, h, -⟩ | ⟨e, h, hcode, hout, herr⟩
    · cases hrep.symm.trans h
    · obtain rfl : pathNotText = e := Except.error.inj (hrep.symm.trans h)
      rw [hcode]
      refine ⟨?_, fun h => absurd h (by decide), fun _ => ⟨rfl, hout, herr⟩⟩
      rw [← hpath, htext]
      decide
  · rcases hrun with ⟨output', h, hcode, hout⟩ | ⟨e, h, -⟩
    · obtain rfl : output = output' := Except.ok.inj (hrep.symm.trans h)
      rw [← hpath]
      exact ⟨⟨fun _ => htext, fun _ => hcode⟩, fun _ => hout ▸ htells, fun h => absurd hcode h⟩
    · cases hrep.symm.trans h

/-! ### A program that publishes -/

namespace Sample

/-- The asset of the answer. -/
def asset : Asset := ⟨1, "n", 0, none, none⟩

/-- A program that publishes the project `a` from the directory `b` and reports with an object, with
these words behind. -/
def start (words : List Bytes) : Start :=
  { words := ["publish", "--project", "a", "--platform", "p", "--build-dir", "b", "--json"].map
      Utf8.encode ++ words
    environmentValue := fun name =>
      if name == apiVariable then some (Utf8.encode "http://h")
      else if name == proxyVariable then some (Utf8.encode "http://s")
      else none
    isWatched := false }

/-- What the program leaves behind where the upload is answered with the asset. -/
def outcome (words : List Bytes) : Outcome × Surroundings :=
  run (start words) (surroundings [assetAnswer])

theorem isAnswered_of_methods {words : List Bytes}
    (h : (outcome words).2.network.sent.map (·.method) = [.get, .get, .get, .post]) :
    IsAnswered (surroundings [assetAnswer]).network (outcome words).2.network asset := by
  have h₃ := congrArg (·[3]?) h
  simp only [List.getElem?_map] at h₃
  obtain ⟨q, hq, hm⟩ := Option.map_eq_some_iff.mp h₃
  exact ⟨3, q, _, hq, hm, rfl, rfl, _, rfl, by decide +kernel⟩

end Sample

/-- The sample is published, and the report tells of the asset. -/
theorem exitCode_of_isAnswered_sample :
    ∃ root c, (Sample.surroundings [Sample.assetAnswer]).files.workingDirectory = .ok root ∧
      resolve (Sample.surroundings [Sample.assetAnswer]).files root
        ⟨some "a", none, some "p", some (.ofText "b"), none⟩ (Sample.start []).environment = .ok c ∧
      ((Sample.outcome []).1.exitCode = 0 ↔
        (true = true → (Layout.ofConfig c).output.text?.isSome = true)) ∧
      ((Sample.outcome []).1.exitCode = 0 →
        Reports true Sample.asset (Sample.outcome []).1.output) ∧
      ((Sample.outcome []).1.exitCode ≠ 0 → (Sample.outcome []).1.exitCode = 1 ∧
        (Sample.outcome []).1.output = "" ∧
        (Sample.outcome []).1.errors = failureText pathNotText) := by
  have hi : parse (Sample.start []).words =
      .ok ⟨.publish false true, ⟨some "a", none, some "p", some (.ofText "b"), none⟩, 0⟩ := by
    decide +kernel
  exact exitCode_of_isAnswered hi rfl (Sample.isAnswered_of_methods (by decide +kernel))

/-- **An accepted upload is no success where the archive has no name in an object**: the output
directory is the byte `0xff`. -/
theorem exitCode_of_path_not_text :
    ∃ i, parse (Sample.start [Utf8.encode "--output-dir", [0xff]]).words = .ok i ∧
      i.command = .publish false true ∧
      IsAnswered (Sample.surroundings [Sample.assetAnswer]).network
        (Sample.outcome [Utf8.encode "--output-dir", [0xff]]).2.network Sample.asset ∧
      (Sample.outcome [Utf8.encode "--output-dir", [0xff]]).1.exitCode = 1 ∧
      (Sample.outcome [Utf8.encode "--output-dir", [0xff]]).1.output = "" := by
  have hi : parse (Sample.start [Utf8.encode "--output-dir", [0xff]]).words =
      .ok ⟨.publish false true,
        ⟨some "a", none, some "p", some (.ofText "b"), some ⟨[0xff]⟩⟩, 0⟩ := by
    decide +kernel
  have hrun : ((Sample.outcome [Utf8.encode "--output-dir", [0xff]]).2.network.sent.map (·.method),
      (Sample.outcome [Utf8.encode "--output-dir", [0xff]]).1.exitCode,
      (Sample.outcome [Utf8.encode "--output-dir", [0xff]]).1.output) =
      ([.get, .get, .get, .post], 1, "") := by
    decide +kernel
  obtain ⟨hsent, hcode, hout⟩ : _ ∧ _ ∧ _ := by simpa only [Prod.mk.injEq] using hrun
  exact ⟨_, hi, rfl, Sample.isAnswered_of_methods hsent, hcode, hout⟩

end ReleasePublisher
