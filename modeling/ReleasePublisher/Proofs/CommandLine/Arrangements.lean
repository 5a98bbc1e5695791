import Mathlib.Data.List.Nodup
import ReleasePublisher.Proofs.CommandLine.Reading

/-!
# The places of options

Options with values may stand before the command and behind it, in any order, and between the switches of the
command. A value stands behind an equals sign, or in a word of its own; there it may look like a command, since
a word that is waited for is no command. All arrangements of the same options are read alike: each option adds
its value to those that were read, and the values of both levels are looked up together.

## Main definitions

* `Argument`, `Arrangement`: an option as it is written, and options around a command
* `Arrangement.Asks a given flags`: the values and the switches that an arrangement states

## Main results

* `readLevel_argument`: what one option adds
* `readLevel_arguments`: what any number of options add
* `Arrangement.parse_words`: an arrangement is read as the values and switches it states
-/

namespace ReleasePublisher.CommandLine

/-! ### Options as they are written -/

/-- An option as it stands on a command line. -/
inductive Argument where
  /-- A value behind an equals sign. -/
  | attached (o : ValueOption) (v : String)
  /-- A value in a word of its own. -/
  | separate (o : ValueOption) (v : String)
  | switch (s : Switch)
  deriving DecidableEq, Repr

namespace Argument

/-- The words of an option. -/
def words : Argument → List Bytes
  | attached o v => [o.wordWith v]
  | separate o v => [AnyOption.word (.value o), Utf8.encode v]
  | switch s => [AnyOption.word (.switch s)]

/-- The option itself. -/
def option : Argument → AnyOption
  | attached o _ => .value o
  | separate o _ => .value o
  | switch s => .switch s

/-- The value that is given to an option. -/
def value? : Argument → Option (ValueOption × String)
  | attached o v => some (o, v)
  | separate o v => some (o, v)
  | switch _ => none

/-- The switch that is given. -/
def switch? : Argument → Option Switch
  | switch s => some s
  | _ => none

/-- A value is not empty, and one in a word of its own does not begin with a dash. -/
def IsWritten : Argument → Prop
  | attached _ v => v ≠ ""
  | separate _ v => v ≠ "" ∧ v.toList.head? ≠ some '-'
  | switch _ => True

instance : DecidablePred IsWritten
  | attached _ v => inferInstanceAs (Decidable (v ≠ ""))
  | separate _ v => inferInstanceAs (Decidable (v ≠ "" ∧ v.toList.head? ≠ some '-'))
  | switch _ => inferInstanceAs (Decidable True)

theorem value?_eq_some_iff {x : Argument} {e : ValueOption × String} :
    x.value? = some e ↔ x = attached e.1 e.2 ∨ x = separate e.1 e.2 := by
  cases x <;> simp [value?, Prod.ext_iff]

theorem switch?_eq_some_iff {x : Argument} {s : Switch} : x.switch? = some s ↔ x = switch s := by
  cases x <;> simp [switch?]

theorem option_of_value? {x : Argument} {e : ValueOption × String} (h : x.value? = some e) :
    x.option = .value e.1 := by
  rcases value?_eq_some_iff.mp h with rfl | rfl <;> rfl

end Argument

/-- The bytes of a value. -/
def encodeValue (e : ValueOption × String) : ValueOption × Bytes :=
  (e.1, Utf8.encode e.2)

/-- The first byte of a text is a dash only where its first character is one. -/
theorem head?_encode {v : String} (hv : v ≠ "") :
    ∃ b, (Utf8.encode v).head? = some b ∧ (b = dash → v.toList.head? = some '-') := by
  obtain ⟨c, cs, hcs⟩ := List.exists_cons_of_ne_nil (fun h => hv (String.toList_eq_nil_iff.mp h))
  obtain ⟨b, bs, hc, hstep⟩ := Utf8.step_encodeChar c
  refine ⟨b, by rw [Utf8.encode, hcs, Utf8.encodeChars, List.flatMap_cons, hc]; rfl, ?_⟩
  rintro rfl
  have hone : Utf8.step dash (bs ++ []) = (some '-', 0) := Utf8.step_one (by decide)
  rw [hstep] at hone
  rw [hcs, List.head?_cons, (Prod.mk.inj hone).1]

/-! ### What one option adds -/

namespace Given

/-- The state in which one more option was read. -/
def add (h : Given) : Argument → Given
  | .attached o v | .separate o v =>
    { h with values := h.values ++ [(o, Utf8.encode v)], used := h.used ++ [.value o] }
  | .switch s => { h with switches := h.switches ++ [s], used := h.used ++ [.switch s] }

/-- An option was not given yet. -/
def Lacks (h : Given) : AnyOption → Prop
  | .value o => h.value? o = .none
  | .switch s => s ∉ h.switches

variable {h : Given} {x : Argument} {o : AnyOption}

theorem add_pending : (h.add x).pending = h.pending := by
  cases x <;> rfl

theorem add_verbosity : (h.add x).verbosity = h.verbosity := by
  cases x <;> rfl

theorem add_values : (h.add x).values = h.values ++ (x.value?.map encodeValue).toList := by
  cases x with
  | attached | separate => rfl
  | switch => exact (List.append_nil _).symm

theorem add_switches : (h.add x).switches = h.switches ++ x.switch?.toList := by
  cases x with
  | attached | separate => exact (List.append_nil _).symm
  | switch => rfl

/-- One option more is not another option. -/
theorem Lacks.add (hlacks : h.Lacks o) (hother : x.option ≠ o) : (h.add x).Lacks o := by
  cases o with
  | value o =>
    rw [Lacks, value?, add_values, List.lookup_append, Option.or_eq_none_iff]
    refine ⟨hlacks, ?_⟩
    rw [List.lookup_eq_none_iff]
    intro e he
    obtain ⟨e', he', rfl⟩ := Option.map_eq_some_iff.mp (Option.mem_toList.mp he)
    rw [bne_iff_ne]
    rintro rfl
    exact hother (Argument.option_of_value? he')
  | switch s =>
    rw [Lacks, add_switches, List.mem_append, not_or]
    refine ⟨hlacks, fun hs => ?_⟩
    rw [Argument.switch?_eq_some_iff.mp (Option.mem_toList.mp hs)] at hother
    exact hother rfl

end Given

section Arguments

variable {l : Level} {g h : Given} {x : Argument}

/-- A value that is written can be stored. -/
theorem Given.store_encode {o : ValueOption} {v : String} (hv : v ≠ "") (hlacks : h.Lacks (.value o)) :
    h.store o (Utf8.encode v) = .ok (h.add (.attached o v)) := by
  refine store_eq_ok_iff.mpr ⟨hlacks, fun _ hnil => ?_, fun _ => ?_, rfl⟩
  · obtain ⟨b, hb, -⟩ := head?_encode hv
    rw [hnil] at hb
    cases hb
  · rw [Utf8.decode?, Utf8.encode, Utf8.decodeChars?_encodeChars]
    rfl

/-- **One option is read** where it was not given yet, and adds what it states. -/
theorem readLevel_argument (hx : x.IsWritten) (hown : ∀ s, x = .switch s → s ∈ l.ownSwitches)
    (hlacks : h.Lacks x.option) (hsettle : g.settle = .ok h) :
    ∃ g₁, g₁.settle = .ok (h.add x) ∧ ∀ rest, readLevel l g (x.words ++ rest) = readLevel l g₁ rest := by
  obtain ⟨hpending, -⟩ := Given.settle_settled hsettle
  have hadded : (h.add x).settle = .ok (h.add x) :=
    Given.settle_of_pending (Given.add_pending.trans hpending)
  cases x with
  | attached o v =>
    have htake := (Given.takeLong_value (v := Utf8.encode v) (Level.longOption?_value l o) hsettle).1
    rw [Given.store_encode hx hlacks] at htake
    exact ⟨_, hadded, fun _ => readLevel_long (o.head?_wordWith v) (o.ofBytes_wordWith v) htake⟩
  | separate o v =>
    -- The value is stored later, in the state in which the option was met.
    have hplain : Word.ofBytes (Utf8.encode v) = .plain := by
      obtain ⟨b, hb, hdash⟩ := head?_encode hx.1
      refine Word.ofBytes_plain fun hhead => hx.2 (hdash ?_)
      rw [hb] at hhead
      exact Option.some.inj hhead
    refine ⟨{ h with pending := some (o, some (Utf8.encode v)) }, ?_, fun rest => ?_⟩
    · exact (Given.settle_of_met hpending o _).trans (Given.store_encode hx.1 hlacks)
    · calc
        readLevel l g (AnyOption.word (.value o) :: Utf8.encode v :: rest)
        _ = readLevel l { h with pending := some (o, none) } (Utf8.encode v :: rest) := readLevel_option o hsettle
        _ = readLevel l { h with pending := some (o, some (Utf8.encode v)) } rest :=
          readLevel_value rfl hplain
  | switch s =>
    have hs := hown s rfl
    have htake := (Given.takeLong_switch (g := g) (Level.longOption?_ownSwitch hs)).trans
      (Given.turnOn_fresh (Level.eq_of_mem_ownSwitches hs) hsettle hlacks)
    exact ⟨_, hadded, fun _ =>
      readLevel_long (AnyOption.head?_word _) (AnyOption.ofBytes_word (.switch s)) htake⟩

/-- **Any number of options are read**, each of them once, and add what they state. -/
theorem readLevel_arguments {xs : List Argument} (hxs : ∀ x ∈ xs, x.IsWritten)
    (hown : ∀ s, .switch s ∈ xs → s ∈ l.ownSwitches) (honce : (xs.map Argument.option).Nodup)
    (hlacks : ∀ x ∈ xs, h.Lacks x.option) (hsettle : g.settle = .ok h) :
    ∃ g₁, g₁.settle = .ok (xs.foldl Given.add h) ∧
      ∀ rest, readLevel l g (xs.flatMap Argument.words ++ rest) = readLevel l g₁ rest := by
  induction xs generalizing g h with
  | nil => exact ⟨g, hsettle, fun _ => rfl⟩
  | cons x xs ih =>
    rw [List.forall_mem_cons] at hxs hlacks
    rw [List.map_cons, List.nodup_cons] at honce
    obtain ⟨g₁, hsettle₁, hread₁⟩ :=
      readLevel_argument hxs.1 (fun s hs => hown s (hs ▸ List.mem_cons_self)) hlacks.1 hsettle
    have hlacks₁ : ∀ y ∈ xs, (h.add x).Lacks y.option := fun y hy =>
      (hlacks.2 y hy).add fun hsame => honce.1 (hsame ▸ List.mem_map_of_mem hy)
    obtain ⟨g₂, hsettle₂, hread₂⟩ :=
      ih hxs.2 (fun s hs => hown s (List.mem_cons_of_mem x hs)) honce.2 hlacks₁ hsettle₁
    refine ⟨g₂, hsettle₂, fun rest => ?_⟩
    rw [List.flatMap_cons, List.append_assoc, hread₁, hread₂]

/-- The values and switches that were read are those that were stated, in order. -/
theorem Given.foldl_add (xs : List Argument) (h : Given) :
    (xs.foldl add h).values = h.values ++ (xs.filterMap Argument.value?).map encodeValue ∧
      (xs.foldl add h).switches = h.switches ++ xs.filterMap Argument.switch? ∧
      (xs.foldl add h).verbosity = h.verbosity := by
  induction xs generalizing h with
  | nil => simp
  | cons x xs ih =>
    obtain ⟨hvalues, hswitches, hverbosity⟩ := ih (h.add x)
    refine ⟨?_, ?_, hverbosity.trans add_verbosity⟩
    · rw [List.foldl_cons, hvalues, add_values]
      cases hx : x.value? <;> simp [hx]
    · rw [List.foldl_cons, hswitches, add_switches]
      cases hx : x.switch? <;> simp [hx]

end Arguments

/-! ### Arrangements -/

/-- Options around a command. -/
structure Arrangement where
  before : List Argument
  command : CommandName
  behind : List Argument

/-- The words of an arrangement. -/
def Arrangement.words (a : Arrangement) : List Bytes :=
  a.before.flatMap Argument.words ++
    Utf8.encode a.command.word :: a.behind.flatMap Argument.words

/-- **An arrangement asks for values and switches**: it states exactly those, no option twice, and the
switches behind the command they belong to. -/
structure Arrangement.Asks (a : Arrangement) (given : ValueOption → Option String) (flags : List Switch) :
    Prop where
  written : ∀ x ∈ a.before ++ a.behind, x.IsWritten
  noSwitch : ∀ s, .switch s ∉ a.before
  own : ∀ s, .switch s ∈ a.behind → s ∈ (Level.command a.command).ownSwitches
  once : ((a.before ++ a.behind).map Argument.option).Nodup
  values : ∀ o v, given o = some v ↔ .attached o v ∈ a.before ++ a.behind ∨ .separate o v ∈ a.before ++ a.behind
  switches : ∀ s, s ∈ flags ↔ .switch s ∈ a.behind

/-- A command with its switches. -/
def CommandName.withFlags (flags : List Switch) : CommandName → Command
  | publish => .publish (flags.contains .dryRun) (flags.contains .json)
  | package => .package (flags.contains .json)
  | config => .config (flags.contains .json)

/-- Values, and nothing else, take the place of what is configured. -/
def overridesOf (given : ValueOption → Option String) : Overrides where
  project := given .project
  owner := given .owner
  platform := given .platform
  buildDir := (given .buildDir).map Path.ofText
  outputDir := (given .outputDir).map Path.ofText

/-- Where no key stands twice, the value of a key is that of its entry. -/
theorem lookup_eq_some_iff_mem {ps : List (ValueOption × Bytes)} (hps : (ps.map Prod.fst).Nodup)
    {o : ValueOption} {v : Bytes} : ps.lookup o = some v ↔ (o, v) ∈ ps := by
  induction ps with
  | nil => simp
  | cons e ps ih =>
    obtain ⟨o', v'⟩ := e
    rw [List.map_cons, List.nodup_cons] at hps
    by_cases ho : o = o'
    · subst ho
      have hother : (o, v) ∉ ps := fun hmem => hps.1 (List.mem_map.mpr ⟨_, hmem, rfl⟩)
      simp [hother, eq_comm]
    · rw [List.lookup_cons, beq_false_of_ne ho, ih hps.2]
      simp [ho]

/-- Where no option is stated twice, no value has the same option. -/
theorem nodup_values {xs : List Argument} (honce : (xs.map Argument.option).Nodup) :
    (((xs.filterMap Argument.value?).map encodeValue).map Prod.fst).Nodup := by
  induction xs with
  | nil => exact List.nodup_nil
  | cons x xs ih =>
    rw [List.map_cons, List.nodup_cons] at honce
    cases hx : x.value? with
    | none => simpa [hx] using ih honce.2
    | some e =>
      rw [List.filterMap_cons_some hx, List.map_cons, List.map_cons, List.nodup_cons]
      refine ⟨fun hmem => honce.1 ?_, ih honce.2⟩
      rw [List.map_map, List.mem_map] at hmem
      obtain ⟨e', he', hkey⟩ := hmem
      obtain ⟨y, hy, hvalue⟩ := List.mem_filterMap.mp he'
      have hsame : y.option = x.option := by
        rw [Argument.option_of_value? hx, Argument.option_of_value? hvalue]
        exact congrArg AnyOption.value hkey
      exact hsame ▸ List.mem_map_of_mem hy

namespace Arrangement

variable {a : Arrangement} {given : ValueOption → Option String} {flags : List Switch} {g₁ g₂ : Given}

/-- **The value of an option** is the one that was given, wherever it was given. -/
theorem Asks.valueOf_eq (h : a.Asks given flags)
    (h₁ : g₁.values = (a.before.filterMap Argument.value?).map encodeValue)
    (h₂ : g₂.values = (a.behind.filterMap Argument.value?).map encodeValue) (o : ValueOption) :
    valueOf g₁ g₂ o = (given o).map Utf8.encode := by
  have hlookup : valueOf g₁ g₂ o =
      (((a.behind ++ a.before).filterMap Argument.value?).map encodeValue).lookup o := by
    rw [List.filterMap_append, List.map_append, List.lookup_append, ← h₁, ← h₂, valueOf, Given.value?,
      Given.value?]
    cases g₂.values.lookup o <;> rfl
  have honce : ((a.behind ++ a.before).map Argument.option).Nodup := by
    rw [List.map_append, List.nodup_append_comm, ← List.map_append]
    exact h.once
  ext bytes
  rw [hlookup, lookup_eq_some_iff_mem (nodup_values honce), Option.map_eq_some_iff, List.mem_map]
  have hmem : ∀ e, e ∈ (a.behind ++ a.before).filterMap Argument.value? ↔ given e.1 = some e.2 := by
    intro e
    rw [h.values, List.mem_filterMap]
    simp only [Argument.value?_eq_some_iff, List.mem_append]
    constructor
    · rintro ⟨x, hx, rfl | rfl⟩
      · exact .inl hx.symm
      · exact .inr hx.symm
    · rintro (hx | hx)
      · exact ⟨_, hx.symm, .inl rfl⟩
      · exact ⟨_, hx.symm, .inr rfl⟩
  constructor
  · rintro ⟨e, he, hpair⟩
    cases hpair
    exact ⟨e.2, (hmem e).mp he, rfl⟩
  · rintro ⟨v, hv, rfl⟩
    exact ⟨(o, v), (hmem (o, v)).mpr hv, rfl⟩

/-- **What both levels ask for** is the command with the switches and the values that were stated. -/
theorem Asks.invocationOf_eq (h : a.Asks given flags)
    (h₁ : g₁.values = (a.before.filterMap Argument.value?).map encodeValue ∧ g₁.verbosity = 0)
    (h₂ : g₂.values = (a.behind.filterMap Argument.value?).map encodeValue ∧
      g₂.switches = a.behind.filterMap Argument.switch? ∧ g₂.verbosity = 0) :
    invocationOf g₁ g₂ a.command = ⟨a.command.withFlags flags, overridesOf given, 0⟩ := by
  have hvalue := h.valueOf_eq h₁.1 h₂.1
  have htext : ∀ o, (valueOf g₁ g₂ o).bind Utf8.decode? = given o := by
    intro o
    rw [hvalue]
    cases given o with
    | none => rfl
    | some v =>
      rw [Option.map_some, Option.bind_some, Utf8.decode?, Utf8.encode, Utf8.decodeChars?_encodeChars]
      exact congrArg some String.ofList_toList
  have hpath : ∀ o, (valueOf g₁ g₂ o).map Path.mk = (given o).map Path.ofText := by
    intro o
    rw [hvalue, Option.map_map]
    rfl
  have hcontains : ∀ s, g₂.switches.contains s = flags.contains s := by
    intro s
    rw [Bool.eq_iff_iff, List.contains_iff_mem, List.contains_iff_mem, h.switches, h₂.2.1, List.mem_filterMap]
    simp only [Argument.switch?_eq_some_iff, exists_eq_right]
  have hcommand : commandOf g₂ a.command = a.command.withFlags flags := by
    cases a.command <;> simp only [commandOf, CommandName.withFlags, hcontains]
  simp only [invocationOf, htext, hpath, hcommand, h₁.2, h₂.2.2, overridesOf]
  rfl

/-- **Where options stand does not matter**: every arrangement is read as its command with the switches it
states, and its values take the place of what is configured, and nothing else does. -/
theorem parse_words (h : a.Asks given flags) :
    parse a.words = .ok ⟨a.command.withFlags flags, overridesOf given, 0⟩ := by
  have honce := h.once
  rw [List.map_append, List.nodup_append] at honce
  have hlacks : ∀ o, Given.none.Lacks o := by
    rintro (o | s)
    · rfl
    · exact List.not_mem_nil
  obtain ⟨g₁, hsettle₁, hread₁⟩ := readLevel_arguments (l := .program) (g := Given.none)
    (fun x hx => h.written x (List.mem_append_left _ hx)) (fun s hs => absurd hs (h.noSwitch s)) honce.1
    (fun x _ => hlacks x.option) rfl
  obtain ⟨g₂, hsettle₂, hread₂⟩ := readLevel_arguments (l := .command a.command) (g := Given.none)
    (fun x hx => h.written x (List.mem_append_right _ hx)) h.own honce.2.1 (fun x _ => hlacks x.option) rfl
  replace hread₁ := hread₁ (Utf8.encode a.command.word :: a.behind.flatMap Argument.words)
  rw [readLevel_command (Given.awaiting?_of_settle hsettle₁)] at hread₁
  replace hread₂ := hread₂ []
  rw [List.append_nil, readLevel] at hread₂
  obtain ⟨hvalues₁, -, hverbosity₁⟩ := Given.foldl_add a.before Given.none
  obtain ⟨hvalues₂, hswitches₂, hverbosity₂⟩ := Given.foldl_add a.behind Given.none
  exact parse_eq_ok_iff.mpr ⟨_, _, _, _, _, _, _, hread₁, hsettle₁, hread₂, hsettle₂,
    (h.invocationOf_eq ⟨hvalues₁, hverbosity₁⟩ ⟨hvalues₂, hswitches₂, hverbosity₂⟩).symm⟩

/-- Options on both sides of a command, with values that look like something else. -/
def scattered : Arrangement where
  before := [.attached .project "a=b", .separate .owner "publish"]
  command := .publish
  behind := [.switch .json, .attached .platform "-x", .separate .outputDir "package", .switch .dryRun]

/-- The values of `scattered`. -/
def scatteredValues : ValueOption → Option String
  | .project => some "a=b"
  | .owner => some "publish"
  | .platform => some "-x"
  | .outputDir => some "package"
  | .buildDir => none

/-- Values that look like a command, an option or another assignment are values. -/
theorem parse_scattered : scattered.Asks scatteredValues [.dryRun, .json] ∧
    parse scattered.words = .ok
      ⟨.publish true true,
        ⟨some "a=b", some "publish", some "-x", none, some (Path.ofText "package")⟩, 0⟩ := by
  have hasks : scattered.Asks scatteredValues [.dryRun, .json] := {
    written := by decide
    noSwitch := by rintro (_ | _) <;> decide
    own := by rintro (_ | _) <;> decide
    once := by decide
    values := by
      intro o v
      cases o <;> simp [scattered, scatteredValues, eq_comm]
    switches := by rintro (_ | _) <;> decide }
  exact ⟨hasks, parse_words hasks⟩

end Arrangement

end ReleasePublisher.CommandLine
