import ReleasePublisher.Log.Record
import ReleasePublisher.Text.Blank

/-!
# Log filters

A filter is a list of directives: the level up to which the records of a part of the program are
shown. The directive for the longest name that starts the name of the part decides.

## Main definitions

* `LogFilter.parse? s`: the filter that a text states
* `LogFilter.shows f r`: the filter shows a record
* `LogFilter.ofVerbosity`: the filter for a command line
-/

namespace ReleasePublisher

/-- Records of a part are shown up to a level. -/
structure Directive where
  /-- How the names of the parts start; empty for all. -/
  target : String
  /-- The greatest detail that is shown; zero shows nothing. -/
  detail : Nat
  deriving DecidableEq, Repr

/-- A list of directives; of two for the same parts the later one counts. -/
abbrev LogFilter := List Directive

namespace LogFilter

/-- The detail of the least important records. -/
def fullDetail : Nat := LogLevel.trace.detail

/-- The detail that a word states: the name of a level, in letters of either case, or its number. -/
def detailOf? (s : List Char) : Option Nat :=
  match String.ofList (s.map Char.toLower) with
  | "off" => some 0
  | "error" => some 1
  | "warn" => some 2
  | "info" => some 3
  | "debug" => some 4
  | "trace" => some 5
  | _ =>
    if s.isEmpty || !s.all Char.isDigit then none
    else
      let n := s.foldl (fun n c => n * 10 + (c.toNat - '0'.toNat)) 0
      if n ≤ fullDetail then some n else none

/-- A character that may begin the name of a part. Letters outside ASCII count. -/
def beginsTarget (c : Char) : Bool :=
  c.isAlphanum || c == '_' || c == ':' || c == '-' || 0x80 ≤ c.toNat

/-- A character of the name of a part: all but those that end it. -/
def isTargetChar (c : Char) : Bool :=
  c != '=' && c != '['

/-- The level behind an equals sign; no level is full detail. -/
def assigned? (rest : List Char) : Option Nat :=
  match rest with
  | [] => some fullDetail
  | '=' :: [] => some fullDetail
  | '=' :: level => detailOf? level
  | _ => none

/-- Drops a part in brackets. -/
def dropBrackets : List Char → Option (List Char)
  | '[' :: rest =>
    match rest.dropWhile (· != ']') with
    | _ :: more => some more
    | [] => none
  | _ => none

/-- The directive that a text states. A directive for spans, in brackets, shows nothing, for there
are no spans. -/
def directive? (s : List Char) : Option (Option Directive) :=
  match detailOf? s with
  | some d => some (some ⟨"", d⟩)
  | none =>
    let target := s.takeWhile isTargetChar
    let rest := s.dropWhile isTargetChar
    -- Inside a name any character may stand, but not at its beginning.
    if target.head?.any (!beginsTarget ·) then none
    else match dropBrackets rest with
      | some more => (assigned? more).map fun _ => none
      | none =>
        if target.isEmpty then none
        else (assigned? rest).map fun d => some ⟨String.ofList target, d⟩

/-- The pieces between commas. -/
def pieces : List Char → List (List Char)
  | [] => [[]]
  | c :: cs =>
    if c == ',' then [] :: pieces cs
    else match pieces cs with
      | [] => [[c]]
      | p :: ps => (c :: p) :: ps

/-- The filter that a text states. No directive at all shows errors only. -/
def parse? (s : String) : Option LogFilter :=
  match ((pieces s.toList).filter (!·.isEmpty)).mapM directive? with
  | none => none
  | some [] => some [⟨"", LogLevel.error.detail⟩]
  | some ds => some (ds.filterMap id)

/-- The directive that decides about the records of a part. -/
def directiveFor (f : LogFilter) (target : String) : Option Directive :=
  (f.filter fun d => d.target.toList.isPrefixOf target.toList).foldl
    (fun best d =>
      match best with
      -- Of two directives that are equally long the later one counts.
      | some b => if b.target.length ≤ d.target.length then some d else some b
      | none => some d) none

/-- The filter shows a record. -/
def shows (f : LogFilter) (r : LogRecord) : Bool :=
  match f.directiveFor r.target with
  | some d => r.level.detail ≤ d.detail
  | none => false

/-- The filter that shows the records of this program up to a level. -/
def ofLevel (l : LogLevel) : LogFilter := [⟨"relup", l.detail⟩]

/-- The filter for a command line: each wish for more detail raises the level, and without one the
given text counts if it states a filter. -/
def ofVerbosity (verbosity : Nat) (text : Option String) : LogFilter :=
  match verbosity with
  | 0 => (text.bind parse?).getD (ofLevel .info)
  | 1 => ofLevel .debug
  | _ => ofLevel .trace

end LogFilter

end ReleasePublisher
