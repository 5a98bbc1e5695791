import Mathlib.Data.List.Basic
import ReleasePublisher.Archive.Stored
import ReleasePublisher.Program
import ReleasePublisher.Proofs.CommandLine.Verbosity

/-!
# Logging

How much of the log is shown is asked for on the command line and by a variable. Neither reaches what a run
does: the configuration does not read the variable, and the command does not know of the wishes for more
detail. A run is therefore one run with one log, of which more or less is shown.

## Main definitions

* `Start.HasSameSetting start start'`: two starts differ in their words and the log filter only
* `Start.AsksMore k start start'`: one of them asks for more detail `k` times more
* `LoggingIsPassive start i`: what is shown of the log is all that depends on it

## Main results

* `resolve_of_hasSameSetting`: the variable of the log filter is no part of the configuration
* `exists_invoke_eq`: a run with any log filter
* `LogFilter.ofVerbosity_sublist`: more wishes show more of the log
* `logging_isPassive`: logging changes nothing
-/

namespace ReleasePublisher

open CommandLine

/-! ### Starts -/

/-- **The same setting** but for the words and the log filter. -/
structure Start.HasSameSetting (start start' : Start) : Prop where
  environmentValue : ∀ name, name ≠ filterVariable →
    start'.environmentValue name = start.environmentValue name
  isWatched : start'.isWatched = start.isWatched

/-- **More detail is asked for** `k` times more, and the variable of the log filter has any value. -/
structure Start.AsksMore (k : Nat) (start start' : Start) : Prop extends start.HasSameSetting start' where
  words : AddsVerbosity k start.words start'.words

variable {start start' : Start}

/-- A variable other than that of the log filter counts as set where it did. -/
theorem Start.HasSameSetting.set? (h : start.HasSameSetting start') (name : String)
    (hname : name ≠ filterVariable) :
    start'.environment.set? name = start.environment.set? name := by
  rw [Environment.set?, Environment.set?, Start.environment, Start.environment, h.environmentValue name hname]

/-- **The log filter is no part of the configuration.** -/
theorem resolve_of_hasSameSetting (h : start.HasSameSetting start') (t : FileTree) (root : Path)
    (overrides : Overrides) :
    resolve t root overrides start'.environment = resolve t root overrides start.environment := by
  have hwith : ∀ file, resolveWith root overrides start'.environment file =
      resolveWith root overrides start.environment file := by
    intro file
    unfold resolveWith
    rw [h.set? projectVariable (by decide), h.set? apiVariable (by decide), h.set? proxyVariable (by decide)]
  simp only [resolve, hwith]

theorem perform_of_hasSameSetting [Gzip.Writer] (h : start.HasSameSetting start') (i : Invocation)
    (v : Nat) (root : Path) :
    perform { i with verbosity := v } root start'.environment start'.isWatched =
      perform i root start.environment start.isWatched := by
  simp only [perform, resolveIn, resolve_of_hasSameSetting h, h.isWatched]

/-! ### Runs with any log filter -/

/-- Of the records that are there, a filter shows a part. -/
def Outcome.filtered (o : Outcome) (f : LogFilter) : Outcome :=
  { o with shown := o.shown.filter f.shows }

/-- **A run has one log**, of which the filter shows a part. -/
theorem exists_invoke_eq [Gzip.Writer] (start : Start) (i : Invocation) (s : Surroundings) :
    ∃ (o : Outcome) (after : Surroundings), ∀ v start', start.HasSameSetting start' →
      invoke { i with verbosity := v } start' s =
        (o.filtered (LogFilter.ofVerbosity v (start'.environment filterVariable)), after) := by
  cases hroot : s.files.workingDirectory with
  | error e =>
    refine ⟨⟨1, "", "Error: Failed to get current directory: " ++ e.message ++ "\n", []⟩, s,
      fun v start' _ => ?_⟩
    simp only [invoke, hroot, Outcome.filtered, List.filter_nil]
  | ok root =>
    rcases hperform : perform i root start.environment start.isWatched s with ⟨e | report, s'⟩
    · refine ⟨⟨e.exitCode, "", failureText e, s'.log ++ [failureRecord e]⟩,
        { s' with log := s'.log ++ [failureRecord e] }, fun v start' h => ?_⟩
      simp only [invoke, hroot, perform_of_hasSameSetting h, hperform, Outcome.filtered]
    · refine ⟨⟨0, report, "", s'.log⟩, s', fun v start' h => ?_⟩
      simp only [invoke, hroot, perform_of_hasSameSetting h, hperform, Outcome.filtered]

/-! ### How much of a log is shown -/

/-- The records of no level have more detail than the least important ones. -/
theorem LogLevel.detail_le_trace (l : LogLevel) : l.detail ≤ trace.detail := by
  cases l <;> decide

namespace LogFilter

/-- The level up to which a command line asks for records. -/
def levelOf : Nat → LogLevel
  | 0 => .info
  | 1 => .debug
  | _ => .trace

theorem ofVerbosity_eq {v : Nat} {text : Option String} (h : v = 0 → text = none) :
    ofVerbosity v text = ofLevel (levelOf v) := by
  match v with
  | 0 =>
    rw [h rfl]
    rfl
  | 1 => rfl
  | _ + 2 => rfl

theorem detail_levelOf_mono {v w : Nat} (h : v ≤ w) : (levelOf v).detail ≤ (levelOf w).detail := by
  match v, w with
  | 0, 0 | 0, 1 | 1, 1 => decide
  | 0, _ + 2 | 1, _ + 2 | _ + 2, _ + 2 =>
    show _ ≤ LogLevel.trace.detail
    exact LogLevel.detail_le_trace _

theorem shows_ofLevel (l : LogLevel) (r : LogRecord) :
    (ofLevel l).shows r = ("relup".toList.isPrefixOf r.target.toList && decide (r.level.detail ≤ l.detail)) := by
  unfold shows directiveFor ofLevel
  rw [List.filter_cons]
  cases "relup".toList.isPrefixOf r.target.toList <;> rfl

/-- A higher level shows what a lower one shows. -/
theorem shows_ofLevel_mono {a b : LogLevel} (hab : a.detail ≤ b.detail) {r : LogRecord}
    (h : (ofLevel a).shows r = true) : (ofLevel b).shows r = true := by
  rw [shows_ofLevel, Bool.and_eq_true, decide_eq_true_eq] at h ⊢
  exact ⟨h.1, Nat.le_trans h.2 hab⟩

/-- **More wishes show more of the log**, where no filter is given. -/
theorem ofVerbosity_sublist {v w : Nat} {text text' : Option String} (hvw : v ≤ w) (hv : v = 0 → text = none)
    (hw : w = 0 → text' = none) (log : List LogRecord) :
    (log.filter (ofVerbosity v text).shows).Sublist (log.filter (ofVerbosity w text').shows) := by
  rw [ofVerbosity_eq hv, ofVerbosity_eq hw]
  exact List.monotone_filter_right log fun r => shows_ofLevel_mono (detail_levelOf_mono hvw)

end LogFilter

/-! ### Logging changes nothing -/

/-- Two outcomes differ in the records that are shown only. -/
structure Outcome.AgreesButForLog (o o' : Outcome) : Prop where
  exitCode : o'.exitCode = o.exitCode
  output : o'.output = o.output
  errors : o'.errors = o.errors

/-- **Logging is passive**: with any number of wishes for more detail, and any log filter, the program leaves
behind the same but for the records that are shown, and does the same to its surroundings; and where no
filter is given, each wish shows at least what was shown without it. -/
structure LoggingIsPassive [Gzip.Writer] (start : Start) (i : Invocation) : Prop where
  unchanged : ∀ k start' s, start.AsksMore k start' →
    (run start s).1.AgreesButForLog (run start' s).1 ∧ (run start' s).2 = (run start s).2
  growing : start.environmentValue filterVariable = none → i.verbosity = 0 →
    ∀ start₁ start₂ s, start.AsksMore 1 start₁ → start.AsksMore 2 start₂ →
      (run start s).1.shown.Sublist (run start₁ s).1.shown ∧
        (run start₁ s).1.shown.Sublist (run start₂ s).1.shown

theorem Start.HasSameSetting.refl (start : Start) : start.HasSameSetting start :=
  ⟨fun _ _ => rfl, rfl⟩

/-- The runs with more wishes are one run, each with a filter of its own. -/
theorem exists_run_eq [Gzip.Writer] {i : Invocation} (hi : parse start.words = .ok i)
    (s : Surroundings) :
    ∃ (o : Outcome) (after : Surroundings),
      run start s =
        (o.filtered (LogFilter.ofVerbosity i.verbosity (start.environment filterVariable)), after) ∧
      ∀ k start', start.AsksMore k start' → ∃ v, (i.verbosity = 0 → v ≤ k ∧ (0 < k → 0 < v)) ∧
        run start' s =
          (o.filtered (LogFilter.ofVerbosity v (start'.environment filterVariable)), after) := by
  obtain ⟨o, after, hinvoke⟩ := exists_invoke_eq start i s
  refine ⟨o, after, ?_, fun k start' h => ?_⟩
  · rw [run, hi]
    exact hinvoke i.verbosity start (.refl start)
  · obtain ⟨v, hv, hverbosity⟩ := parse_of_addsVerbosity hi h.words
    refine ⟨v, hverbosity, ?_⟩
    rw [run, hv]
    exact hinvoke v start' h.toHasSameSetting

/-- **Logging never changes behaviour.** -/
theorem logging_isPassive [Gzip.Writer] {i : Invocation} (hi : parse start.words = .ok i) :
    LoggingIsPassive start i where
  unchanged := by
    intro k start' s h
    obtain ⟨o, after, hrun, hmore⟩ := exists_run_eq hi s
    obtain ⟨v, -, hrun'⟩ := hmore k start' h
    rw [hrun, hrun']
    exact ⟨⟨rfl, rfl, rfl⟩, rfl⟩
  growing := by
    intro hfilter hquiet start₁ start₂ s h₁ h₂
    obtain ⟨o, after, hrun, hmore⟩ := exists_run_eq hi s
    obtain ⟨v₁, hv₁, hrun₁⟩ := hmore 1 start₁ h₁
    obtain ⟨v₂, hv₂, hrun₂⟩ := hmore 2 start₂ h₂
    obtain ⟨hle₁, hpos₁⟩ := hv₁ hquiet
    obtain ⟨-, hpos₂⟩ := hv₂ hquiet
    have htext : start.environment filterVariable = none := by
      rw [Start.environment, hfilter]
      rfl
    rw [hrun, hrun₁, hrun₂, hquiet]
    exact ⟨LogFilter.ofVerbosity_sublist (Nat.zero_le v₁) (fun _ => htext) (by omega) o.shown,
      LogFilter.ofVerbosity_sublist (by omega) (by omega) (by omega) o.shown⟩

namespace Sample

/-- A program that shows the configuration, with these words and this log filter. -/
def loggingStart (words : List String) (filter : Option String) : Start :=
  { words := words.map Utf8.encode
    environmentValue := fun name => if name == filterVariable then filter.map Utf8.encode else none
    isWatched := true }

end Sample

/-- With wishes on both sides of the command and a filter that shows nothing, the project is the same. -/
theorem logging_isPassive_sample :
    LoggingIsPassive (Sample.loggingStart ["--project", "publish", "config"] none)
        ⟨.config false, ⟨some "publish", none, none, none, none⟩, 0⟩ ∧
      Start.AsksMore 3 (Sample.loggingStart ["--project", "publish", "config"] none)
        (Sample.loggingStart ["-vv", "--project", "publish", "config", "--verbose"] (some "off")) := by
  have hparse : parse (Sample.loggingStart ["--project", "publish", "config"] none).words =
      .ok ⟨.config false, ⟨some "publish", none, none, none, none⟩, 0⟩ := by
    decide +kernel
  have hwords : AddsVerbosity 3 (["--project", "publish", "config"].map Utf8.encode)
      (["-vv", "--project", "publish", "config", "--verbose"].map Utf8.encode) :=
    .letters 1 (.value .project _ (.kept (by decide) (by rintro (_ | _) <;> decide) (.long .nil)))
  refine ⟨logging_isPassive hparse, { environmentValue := fun name hname => ?_, isWatched := rfl, words := hwords }⟩
  simp [Sample.loggingStart, hname]

end ReleasePublisher
