import ReleasePublisher.Proofs.Program.AcceptedUpload
import ReleasePublisher.Proofs.Release.Reports

/-!
# What a run writes

A run writes all of its report or nothing. A run that fails writes nothing, wherever it fails; a run that
succeeds was asked for help or for the version, or its command gave a report. Where an object is asked for,
the output is that report as one JSON document with a line break behind it, whatever names, paths and
answers it holds.

## Main definitions

* `CommandLine.Command.asksForObject`: an object is asked for
* `CommandLine.Command.Gives c isWatched s report`: the command gives a report
* `CommandLine.Invocation.Yields start s report`: so does its command with the resolved configuration
* `Report.IsObjectIn report t output v`: the output is `v`, the object of the report
* `AllOrNothing start s o`: what is left behind holds all of a report or nothing

## Main results

* `carryOut_ok`, `perform_ok`: a command that writes something writes its report
* `run_allOrNothing`: a run writes all of its report or nothing
-/

namespace ReleasePublisher

open CommandLine

/-! ### What commands give -/

namespace CommandLine

/-- An object is asked for. -/
def Command.asksForObject : Command → Bool
  | publish _ json => json
  | package json => json
  | config json => json

/-- **The command gives a report** in these surroundings. -/
inductive Command.Gives [Gzip.Writer] (c : Config) (isWatched : Bool) (s : Surroundings) :
    Command → Report → Prop
  | publish {dryRun json : Bool} {r : PublishReport} {s' : Surroundings} :
    ReleasePublisher.publish c ⟨dryRun, isWatched && !json⟩ s = (.ok r, s') →
      Gives c isWatched s (.publish dryRun json) (.published r)
  | package {json : Bool} {a : PackagedArchive} {s' : Surroundings} :
    ReleasePublisher.package c s = (.ok a, s') → Gives c isWatched s (.package json) (.packed a)
  | config {json : Bool} : Gives c isWatched s (.config json) (.resolved c)

/-- **The invocation yields a report**: its command gives it with the configuration that is found in the
working directory. At most the log is longer by then. -/
def Invocation.Yields [Gzip.Writer] (i : Invocation) (start : Start) (s : Surroundings)
    (report : Report) : Prop :=
  ∃ root c s₁, s.files.workingDirectory = .ok root ∧
    resolve s.files root i.overrides start.environment = .ok c ∧
    s₁.files = s.files ∧ s₁.network = s.network ∧ i.command.Gives c start.isWatched s₁ report

end CommandLine

variable {c : Config} {isWatched : Bool} {s : Surroundings} {command : Command} {report : Report}

/-- The integers of what a command gives have 64 bits, if the lengths of all files have 63 bits. -/
theorem CommandLine.Command.Gives.withinLimits [Gzip.Writer] (h : command.Gives c isWatched s report)
    (hs : s.files.WithinLimits) : report.WithinLimits := by
  cases h with
  | publish h => exact Report.withinLimits_of_publish hs h
  | package h => exact package_size_lt hs h
  | config => trivial

/-! ### What commands write -/

/-- Where an object is asked for, the output is that of the report, with a line break behind it. -/
def Report.IsWrittenAs (report : Report) (asksForObject : Bool) (output : String) : Prop :=
  asksForObject = true → ∃ v, report.toJson = some v ∧ output = v.pretty ++ "\n"

/-- What is written is the object of the report, or lines. -/
theorem Report.isWrittenAs_of_ite {json : Bool} {lines output : String}
    (h : (if json then jsonReport report.toJson else .ok lines) = .ok output) :
    report.IsWrittenAs json output := by
  rintro rfl
  cases hv : report.toJson with
  | none => simp [hv, jsonReport] at h
  | some v =>
    rw [if_pos rfl, hv] at h
    exact ⟨v, rfl, (Except.ok.inj h).symm⟩

/-- **A command that writes something** gives a report and writes that. -/
theorem carryOut_ok [Gzip.Writer] {root : Path} {output : String} {s' : Surroundings}
    (h : carryOut c root isWatched command s = (.ok output, s')) :
    ∃ report, command.Gives c isWatched s report ∧
      report.IsWrittenAs command.asksForObject output := by
  cases command with
  | publish dryRun json =>
    obtain ⟨r, s₁, hr, h⟩ := Run.bind_ok h
    exact ⟨_, .publish hr, Report.isWrittenAs_of_ite (Prod.mk.inj h).1⟩
  | package json =>
    obtain ⟨a, s₁, ha, h⟩ := Run.bind_ok h
    exact ⟨_, .package ha, Report.isWrittenAs_of_ite (Prod.mk.inj h).1⟩
  | config json => exact ⟨_, .config, Report.isWrittenAs_of_ite (Prod.mk.inj h).1⟩

theorem resolveIn_keeps_files (root : Path) (overrides : Overrides) (env : Environment) :
    Run.Keeps Surroundings.files (resolveIn root overrides env) :=
  .bind .files fun _ => .bind (.ofExcept _) fun _ => .bind (.note_files _) fun _ => .pure _

/-- **An invocation that writes something** yields a report and writes that. -/
theorem perform_ok [Gzip.Writer] {i : Invocation} {start : Start} {root : Path} {output : String}
    {s' : Surroundings} (hroot : s.files.workingDirectory = .ok root)
    (h : perform i root start.environment start.isWatched s = (.ok output, s')) :
    ∃ report, i.Yields start s report ∧ report.IsWrittenAs i.command.asksForObject output := by
  rw [perform] at h
  obtain ⟨c, s₁, hc, h⟩ := Run.bind_ok h
  obtain ⟨report, hgives, hwritten⟩ := carryOut_ok h
  rcases resolveIn_cases root i.overrides start.environment s with
    ⟨e, he⟩ | ⟨c', s₂, hresolve, hc', hnetwork⟩
  · cases he.symm.trans hc
  · obtain ⟨hcc, rfl⟩ := Prod.mk.inj (hc'.symm.trans hc)
    obtain rfl := Except.ok.inj hcc
    have hfiles := (resolveIn_keeps_files root i.overrides start.environment).eq hc
    exact ⟨report, ⟨root, c', s₂, hroot, hresolve, hfiles, hnetwork, hgives⟩, hwritten⟩

/-! ### What runs write -/

/-- **The output is the object of the report**: one document with the fields that are there, and a line
break. The object is read again from it; no file on a disk is so long that its archive would have a size
beyond 64 bits. -/
structure Report.IsObjectIn (report : Report) (t : FileTree) (output : String) (v : Json) : Prop where
  toJson_eq : report.toJson = some v
  members_eq : v = .object report.fields.present
  output_eq : output = v.pretty ++ "\n"
  parse_eq : t.WithinLimits → Json.parse (Utf8.encode output) = .ok v

/-- **What is left behind holds all of a report or nothing.** -/
structure AllOrNothing [Gzip.Writer] (start : Start) (s : Surroundings) (o : Outcome) : Prop where
  /-- A failure writes nothing. -/
  output_of_failure : o.exitCode ≠ 0 → o.output = ""
  /-- A success is asked for, or is that of a command which gives a report. -/
  cases_of_success : o.exitCode = 0 →
    (∃ r, parse start.words = .error r ∧ r.isAsked = true) ∨
    ∃ i report, parse start.words = .ok i ∧ i.Yields start s report ∧
      (i.command.asksForObject = true → ∃ v, report.IsObjectIn s.files o.output v)

theorem Failure.exitCode_ne_zero (e : Failure) : e.exitCode ≠ 0 := by
  unfold exitCode
  split <;> decide

/-- A refused command line writes nothing unless it asks for help or for the version. -/
theorem refuse_cases (r : Refusal) :
    (r.isAsked = true ∧ (refuse r).exitCode = 0) ∨ ((refuse r).exitCode ≠ 0 ∧ (refuse r).output = "") := by
  unfold refuse Refusal.exitCode
  cases hr : r.isAsked with
  | true => exact .inl ⟨rfl, by simp⟩
  | false => exact .inr ⟨by simp, by simp⟩

/-- **The object of a report that is written** is read again from the output. -/
theorem Report.IsWrittenAs.isObjectIn [Gzip.Writer] {i : Invocation} {start : Start} {output : String}
    (h : report.IsWrittenAs i.command.asksForObject output) (hyields : i.Yields start s report)
    (hasks : i.command.asksForObject = true) : ∃ v, report.IsObjectIn s.files output v := by
  obtain ⟨v, hv, rfl⟩ := h hasks
  refine ⟨v, hv, (toJson_eq_some_iff.mp hv).2, rfl, fun hs => ?_⟩
  obtain ⟨root, c, s₁, -, -, hfiles, -, hgives⟩ := hyields
  -- Resolving has changed no file, so the command began with the same limits.
  have hlimits : report.WithinLimits := hgives.withinLimits (hfiles ▸ hs)
  have hbreak : Json.AreBlank (Utf8.encode "\n") := (Json.isGap_lineBreak 0).areBlank
  rw [Utf8.encode_append]
  exact Json.parse_pretty (fits_toJson hlimits hv) hbreak

/-- **A run writes all of its report or nothing.** Whatever the words, the environment, the files and the
answers are: a run that fails writes nothing. A run that succeeds was asked for help or for the version, or
its command gave a report with the configuration that was found; and where an object is asked for, the output
is the object of that report with a line break behind it. The object has a member for each field that is
there, and is read again from the output. -/
theorem run_allOrNothing [Gzip.Writer] (start : Start) (s : Surroundings) :
    AllOrNothing start s (run start s).1 := by
  cases hi : parse start.words with
  | error r =>
    -- Nothing is run, and the text of a refusal stands in the output only if it was asked for.
    have hrun : (run start s).1 = refuse r := by rw [run, hi]
    rw [hrun]
    rcases refuse_cases r with ⟨hasked, hcode⟩ | ⟨hcode, houtput⟩
    · exact ⟨fun h => absurd hcode h, fun _ => .inl ⟨r, hi, hasked⟩⟩
    · exact ⟨fun _ => houtput, fun h => absurd h hcode⟩
  | ok i =>
    rcases run_cases hi s with ⟨errors, hrun⟩ | ⟨root, r, s', hroot, hp, -, hrun⟩
    · rw [hrun]
      exact ⟨fun _ => rfl, fun h => absurd h Nat.one_ne_zero⟩
    rcases hrun with ⟨output, rfl, hcode, houtput⟩ | ⟨e, -, hcode, houtput, -⟩
    · refine ⟨fun h => absurd hcode h, fun _ => .inr ?_⟩
      obtain ⟨report, hyields, hwritten⟩ := perform_ok hroot hp
      rw [houtput]
      exact ⟨i, report, hi, hyields, hwritten.isObjectIn hyields⟩
    · exact ⟨fun _ => houtput, fun h => absurd (hcode.symm.trans h) e.exitCode_ne_zero⟩

/-! ### A directory with a name that is escaped -/

namespace Sample

/-- An output directory whose name has a quote, a backslash, a line break, a control and a letter beyond
ASCII. -/
def oddDirectory : List Bytes :=
  [Utf8.encode "--output-dir", Utf8.encode "\"\\\n\x01é"]

theorem withinLimits (answers : List Answer) : (surroundings answers).files.WithinLimits := by
  refine .of_nodes ?_
  simp only [surroundings, files, List.forall_mem_cons]
  refine ⟨nofun, nofun, ?_, nofun⟩
  rintro _ ⟨⟩
  decide

end Sample

/-- The sample is published into that directory, and the report is read again. -/
theorem run_allOrNothing_sample :
    (Sample.outcome Sample.oddDirectory).1.exitCode = 0 ∧
      (Sample.surroundings [Sample.assetAnswer]).files.WithinLimits ∧
      ∃ (report : Report) (v : Json), report.IsObjectIn (Sample.surroundings [Sample.assetAnswer]).files
          (Sample.outcome Sample.oddDirectory).1.output v ∧
        Json.parse (Utf8.encode (Sample.outcome Sample.oddDirectory).1.output) = .ok v := by
  have hi : parse (Sample.start Sample.oddDirectory).words =
      .ok ⟨.publish false true, ⟨some "a", none, some "p", some (.ofText "b"),
        some (.ofText "\"\\\n\x01é")⟩, 0⟩ := by
    decide +kernel
  have hcode : (Sample.outcome Sample.oddDirectory).1.exitCode = 0 := by
    decide +kernel
  have hlimits := Sample.withinLimits [Sample.assetAnswer]
  rcases (run_allOrNothing (Sample.start Sample.oddDirectory)
    (Sample.surroundings [Sample.assetAnswer])).cases_of_success hcode with
    ⟨r, hr, -⟩ | ⟨i, report, hi', -, hobject⟩
  · cases hr.symm.trans hi
  · obtain rfl := Except.ok.inj (hi'.symm.trans hi)
    obtain ⟨v, hv⟩ := hobject rfl
    exact ⟨hcode, hlimits, report, v, hv, hv.parse_eq hlimits⟩

end ReleasePublisher
