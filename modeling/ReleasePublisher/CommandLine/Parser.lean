import ReleasePublisher.CommandLine.Options
import ReleasePublisher.Release.Resolve

/-!
# Reading the command line

Words are read from left to right. An option with a value takes the next word that is not itself an
option; the value is looked at only when the next option is met or the words end, so that a word
nobody knows is reported first. Options before the command are looked at after those behind it.

## Main definitions

* `UsageFault`, `Refusal`: why a command line is refused, and at which level
* `Given`: the options that were given at a level
* `Invocation`: what a command line asks for
* `parse words`: reads a command line
-/

namespace ReleasePublisher.CommandLine

/-- What help can be asked about. -/
inductive Topic where
  | level (l : Level)
  /-- The command that shows help. -/
  | help
  deriving DecidableEq, Repr

/-- Why a command line does not name something to do. -/
inductive UsageFault where
  /-- An option that the level does not know, behind others. -/
  | unknownOption (shown : String) (used : List AnyOption)
  /-- A word that stands where none is expected. -/
  | unexpectedWord (word : Bytes)
  /-- A command that stands behind two dashes. -/
  | dashedCommand (word : Bytes)
  | unknownCommand (word : Bytes)
  | missingValue (o : ValueOption)
  | repeated (o : AnyOption)
  /-- A switch with a value, behind other options. -/
  | unwantedValue (s : Switch) (value : Bytes) (used : List AnyOption)
  /-- A value that has to be text and is not. -/
  | notText
  | missingCommand
  /-- Nothing was asked for. -/
  | nothing
  | helpAsked (t : Topic)
  | versionAsked (l : Level)
  deriving DecidableEq, Repr

/-- A command line is refused at a level. -/
structure Refusal where
  level : Level
  fault : UsageFault
  deriving DecidableEq, Repr

/-- The options that were given at a level. -/
structure Given where
  values : List (ValueOption × Bytes)
  switches : List Switch
  /-- How often more detail was asked for. -/
  verbosity : Nat
  /-- The options that were given, in order. -/
  used : List AnyOption
  /-- An option whose value was not yet looked at, or not yet met. -/
  pending : Option (ValueOption × Option Bytes)
  deriving DecidableEq, Repr

/-- No options. -/
def Given.none : Given := ⟨[], [], 0, [], .none⟩

/-- The greatest number of times that counts. -/
def maxVerbosity : Nat := 255

namespace Given

/-- The value of an option. -/
def value? (g : Given) (o : ValueOption) : Option Bytes :=
  g.values.lookup o

/-- Keeps the value of an option, which may be given once. -/
def store (g : Given) (o : ValueOption) (v : Bytes) : Except UsageFault Given :=
  -- At one level an option has one value.
  if (g.value? o).isSome then .error (.repeated (.value o))
  else if o.takesPath && v.isEmpty then .error (.missingValue o)
  else if !o.takesPath && (Utf8.decode? v).isNone then .error .notText
  else .ok { g with values := g.values ++ [(o, v)], used := g.used ++ [.value o] }

/-- Looks at the value that is pending. -/
def settle (g : Given) : Except UsageFault Given :=
  match g.pending with
  | .none => .ok g
  | some (o, .none) => .error (.missingValue o)
  | some (o, some v) => { g with pending := .none }.store o v

/-- The options that count as given when an option that nobody knows is met. -/
def usedSoFar (g : Given) : List AnyOption :=
  match g.settle with
  | .ok g => g.used
  | .error _ => g.used

/-- Turns a switch on. -/
def turnOn (l : Level) (g : Given) (s : Switch) : Except UsageFault Given :=
  match g.settle with
  | .error e => .error e
  | .ok g =>
    match s with
    | .help => .error (.helpAsked (.level l))
    | .version => .error (.versionAsked l)
    | .verbose =>
      .ok { g with
        verbosity := min maxVerbosity (g.verbosity + 1)
        used := g.used.filter (· != .switch .verbose) ++ [.switch .verbose] }
    | s =>
      if g.switches.contains s then .error (.repeated (.switch s))
      else .ok { g with switches := g.switches ++ [s], used := g.used ++ [.switch s] }

/-- Begins an option with a value. -/
def begin (g : Given) (o : ValueOption) (attached : Option Bytes) : Except UsageFault Given :=
  match g.settle with
  | .error e => .error e
  | .ok g =>
    match attached with
    | some v => g.store o v
    | .none => .ok { g with pending := some (o, .none) }

/-- Reads an option with a long name, and the value behind the equals sign. -/
def takeLong (l : Level) (g : Given) (name : Bytes) (attached : Option Bytes) :
    Except UsageFault Given :=
  match l.longOption? name with
  | .none => .error (.unknownOption ("--" ++ Utf8.lossy name) g.usedSoFar)
  | some (.value o) => g.begin o attached
  | some (.switch s) =>
    match attached with
    | some v =>
      -- The switch counts as given in the usage that is shown.
      let used := if g.used.contains (.switch s) then g.used else g.used ++ [.switch s]
      .error (.unwantedValue s v used)
    | .none => g.turnOn l s

/-- Reads the letters behind a single dash. -/
def takeLetters (l : Level) (g : Given) : Bytes → Except UsageFault Given
  | [] => .ok g
  | b :: rest =>
    match Utf8.step b rest with
    -- From here on the letters are no text, so they are shown together.
    | (.none, _) => .error (.unknownOption ("-" ++ Utf8.lossy (b :: rest)) [])
    | (some c, n) =>
      match l.letterOption? c with
      | some (.switch s) =>
        match g.turnOn l s with
        | .ok g => takeLetters l g (rest.drop n)
        | .error e => .error e
      | _ => .error (.unknownOption ("-" ++ String.singleton c) [])
termination_by letters => letters.length
decreasing_by (simp only [List.length_drop, List.length_cons]; omega)

end Given

/-- The dash, of which one stands before letters and two before long names. -/
def dash : UInt8 := 0x2D

/-- A word as it is read. -/
inductive Word where
  /-- Two dashes alone: no options follow. -/
  | escape
  | long (name : Bytes) (attached : Option Bytes)
  /-- Letters behind a single dash. -/
  | letters (cs : Bytes)
  | plain
  deriving DecidableEq, Repr

/-- A word as it is read. A dash alone is a plain word. -/
def Word.ofBytes : Bytes → Word
  | [] => .plain
  | b :: rest =>
    if b != dash then .plain
    else match rest with
      | [] => .plain
      | c :: more =>
        if c != dash then .letters rest
        else if more.isEmpty then .escape
        else
          let name := more.takeWhile (· != 0x3D)
          .long name (if more.contains 0x3D then some (more.drop (name.length + 1)) else none)

/-- The option that waits for its value. -/
def Given.awaiting? (g : Given) : Option ValueOption :=
  match g.pending with
  | some (o, .none) => some o
  | _ => .none

/-- The word for help. -/
def helpWord : Bytes := Utf8.encode "help"

/-- What the words behind the word for help ask about. -/
def helpFault : List Bytes → UsageFault
  | [] => .helpAsked (.level .program)
  | w :: rest =>
    let topic :=
      if w == helpWord then some Topic.help
      else (CommandName.ofWord? w).map fun c => .level (.command c)
    match topic, rest with
    | .none, _ => .unknownCommand w
    | some t, [] => .helpAsked t
    | some _, next :: _ => .unknownCommand next

/-- The fault of a word that is neither an option nor a value. -/
def wordFault (l : Level) (isTrailing : Bool) (w : Bytes) : UsageFault :=
  match l with
  | .command _ => .unexpectedWord w
  | .program =>
    if isTrailing && (CommandName.ofWord? w).isSome || isTrailing && w == helpWord then
      .dashedCommand w
    else .unknownCommand w

/-- The command, or the wish for help, that a word before any command states. -/
def commandAt (l : Level) (g : Given) (w : Bytes) (rest : List Bytes) :
    Option (Except UsageFault (CommandName × List Bytes)) :=
  if l != .program || g.awaiting?.isSome then none
  else if w == helpWord then some (.error (helpFault rest))
  else (CommandName.ofWord? w).map fun c => .ok (c, rest)

/-- Reads the words at a level: the options, and the command with the words behind it. -/
def readLevel (l : Level) (g : Given) :
    List Bytes → Except UsageFault (Given × Option (CommandName × List Bytes))
  | [] => .ok (g, none)
  | w :: rest =>
    match commandAt l g w rest with
    | some (.ok c) => .ok (g, some c)
    | some (.error e) => .error e
    | none =>
      match Word.ofBytes w with
      | .escape =>
        match rest with
        | [] => .ok (g, none)
        -- No level takes words, so the first one behind the dashes is a fault.
        | next :: _ => .error (wordFault l true next)
      | .long name attached =>
        match g.takeLong l name attached with
        | .ok g => readLevel l g rest
        | .error e => .error e
      | .letters cs =>
        match g.takeLetters l cs with
        | .ok g => readLevel l g rest
        | .error e => .error e
      | .plain =>
        match g.awaiting? with
        -- The value is kept and looked at later.
        | some o => readLevel l { g with pending := some (o, some w) } rest
        | none => .error (wordFault l false w)

/-- A command with its switches. -/
inductive Command where
  | publish (dryRun json : Bool)
  | package (json : Bool)
  | config (json : Bool)
  deriving DecidableEq, Repr

/-- What a command line asks for. -/
structure Invocation where
  command : Command
  overrides : Overrides
  verbosity : Nat
  deriving DecidableEq, Repr

/-- The value of an option: the one behind the command if there is one, else the one before it. -/
def valueOf (before behind : Given) (o : ValueOption) : Option Bytes :=
  match behind.value? o with
  | some v => some v
  | none => before.value? o

/-- A command with the switches that were given behind it. -/
def commandOf (g : Given) : CommandName → Command
  | .publish => .publish (g.switches.contains .dryRun) (g.switches.contains .json)
  | .package => .package (g.switches.contains .json)
  | .config => .config (g.switches.contains .json)

/-- What the options before and behind a command ask for. -/
def invocationOf (before behind : Given) (c : CommandName) : Invocation :=
  let text (o : ValueOption) : Option String := (valueOf before behind o).bind Utf8.decode?
  let path (o : ValueOption) : Option Path := (valueOf before behind o).map Path.mk
  { command := commandOf behind c
    overrides :=
      { project := text .project
        owner := text .owner
        platform := text .platform
        buildDir := path .buildDir
        outputDir := path .outputDir }
    verbosity := if behind.verbosity == 0 then before.verbosity else behind.verbosity }

/-- The words behind a command, with those before it read already. -/
def parseCommand (before : Given) (c : CommandName) (words : List Bytes) :
    Except Refusal Invocation :=
  let l : Level := .command c
  match (readLevel l .none words).bind fun (g, _) => g.settle with
  | .error e => .error ⟨l, e⟩
  | .ok behind =>
    -- The options before the command come last.
    match before.settle with
    | .error e => .error ⟨.program, e⟩
    | .ok before => .ok (invocationOf before behind c)

/-- Reads a command line. -/
def parse (words : List Bytes) : Except Refusal Invocation :=
  match readLevel .program .none words with
  | .error e => .error ⟨.program, e⟩
  | .ok (before, some (c, rest)) => parseCommand before c rest
  | .ok (before, none) =>
    match before.settle with
    | .error e => .error ⟨.program, e⟩
    | .ok before => .error ⟨.program, if before.used.isEmpty then .nothing else .missingCommand⟩

end ReleasePublisher.CommandLine
