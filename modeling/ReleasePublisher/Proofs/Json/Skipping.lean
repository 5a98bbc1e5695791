import ReleasePublisher.Proofs.Json.Grammar

/-!
# Passing over a value

The reader that passes over a value keeps the brackets that are open. Each of its steps takes a byte or
goes on to a value, so that its fuel suffices; and what it takes is a value as the grammar has it, whatever
the brackets around it.

## Main definitions

* `Json.Step p stack s n t`: one step of the reader
* `Json.Nesting.Completes n s rest`: what is left to pass over stands at the start of a text

## Main results

* `Json.skipStep_eq_ok_iff`: the reader takes exactly these steps
* `Json.skipValue_eq_ok_iff`: a value is passed over exactly where one stands
* `Json.Spans.unique`: at most one value stands there
-/

namespace ReleasePublisher.Json

/-! ### Steps -/

/-- Where the reader is when it comes to a part, with these brackets around it. -/
def Part.nesting : Part → List Bracket → Nesting
  | value, stack => ⟨.value, stack⟩
  | tail top true, stack => ⟨.first, top :: stack⟩
  | tail top false, stack => ⟨.comma, top :: stack⟩

/-- **One step of the reader** at a part, with these brackets around it. -/
inductive Step : Part → List Bracket → Bytes → Nesting → Bytes → Prop
  | scalar {s t rest : Bytes} {b : UInt8} {stack : List Bracket} : skipBlank s = b :: t →
      skipScalar b t = .ok rest → Step .value stack s ⟨.comma, stack⟩ rest
  | bracket {s t : Bytes} (top : Bracket) {stack : List Bracket} : skipBlank s = top.opening :: t →
      Step .value stack s ⟨.first, top :: stack⟩ t
  | close {s rest : Bytes} {top : Bracket} {isFirst : Bool} {stack : List Bracket} :
      skipBlank s = top.closing :: rest → Step (.tail top isFirst) stack s ⟨.comma, stack⟩ rest
  | enter {s t : Bytes} {top : Bracket} {isFirst : Bool} {stack : List Bracket} :
      Enters top isFirst s t → Step (.tail top isFirst) stack s ⟨.value, top :: stack⟩ t

theorem skipScalar_opening (top : Bracket) (s : Bytes) :
    skipScalar top.opening s = .error (.at .expectedValue (top.opening :: s)) := by
  cases top with
  | list => rfl
  | object => rfl

theorem closing_ne_comma (top : Bracket) : (0x2C : UInt8) ≠ top.closing := by
  cases top with
  | list => decide
  | object => decide

/-- The step at a value. -/
theorem skipStep_value_eq_ok_iff {stack : List Bracket} {n : Nesting} {s t : Bytes} :
    skipStep ⟨.value, stack⟩ s = .ok (n, t) ↔ Step .value stack s n t := by
  constructor
  · intro h
    unfold skipStep at h
    dsimp only at h
    split at h
    · cases h
    · rename_i b u hs
      split at h
      · rename_i hb
        cases h
        exact .bracket .list (by rw [hs, eq_of_beq hb]; rfl)
      · split at h
        · rename_i hb
          cases h
          exact .bracket .object (by rw [hs, eq_of_beq hb]; rfl)
        · obtain ⟨r, hr, he⟩ := map_eq_ok.mp h
          cases he
          exact .scalar hs hr
  · intro h
    cases h with
    | @scalar _ _ _ b _ hs ht =>
      have hopen : ∀ top : Bracket, b ≠ top.opening := by
        rintro top rfl
        rw [skipScalar_opening] at ht
        cases ht
      have hlist : b ≠ 0x5B := hopen .list
      have hobject : b ≠ 0x7B := hopen .object
      simp [skipStep, hs, hlist, hobject, ht, Except.map]
    | bracket top hs =>
      cases top with
      | list => simp [skipStep, hs, Bracket.opening]
      | object => simp [skipStep, hs, Bracket.opening]

/-- What the reader does in an open bracket. -/
theorem skipStep_tail (top : Bracket) (isFirst : Bool) (stack : List Bracket) (s : Bytes) :
    skipStep ((Part.tail top isFirst).nesting stack) s =
      match skipBlank s with
      | [] => .error ⟨top.endReason, 0⟩
      | b :: u =>
        if b == top.closing then .ok (⟨.comma, stack⟩, u)
        else if isFirst then (top.label (b :: u)).map (⟨.value, top :: stack⟩, ·)
        else if b == 0x2C then (top.label u).map (⟨.value, top :: stack⟩, ·)
        else .error (.at top.commaReason (b :: u)) := by
  cases isFirst <;> cases top <;> (simp only [Part.nesting, skipStep]; cases skipBlank s <;> rfl)

/-- The step in an open bracket. -/
theorem skipStep_tail_eq_ok_iff {top : Bracket} {isFirst : Bool} {stack : List Bracket} {n : Nesting}
    {s t : Bytes} :
    skipStep ((Part.tail top isFirst).nesting stack) s = .ok (n, t) ↔
      Step (.tail top isFirst) stack s n t := by
  rw [skipStep_tail]
  constructor
  · intro h
    split at h
    · cases h
    · rename_i b u hs
      split at h
      · rename_i hb
        cases h
        exact .close (by rw [hs, eq_of_beq hb])
      · rename_i hb
        split at h
        · rename_i hfirst
          obtain ⟨r, hr, he⟩ := map_eq_ok.mp h
          cases he
          subst hfirst
          exact .enter (.first hs (by simpa using hb) hr)
        · rename_i hfirst
          obtain rfl : isFirst = false := by simpa using hfirst
          split at h
          · rename_i hcomma
            obtain ⟨r, hr, he⟩ := map_eq_ok.mp h
            cases he
            exact .enter (.next (by rw [hs, eq_of_beq hcomma]) hr)
          · cases h
  · intro h
    cases h with
    | close hs => simp [hs]
    | enter he =>
      cases he with
      | first hs hne ht => simp [hs, hne, ht, Except.map]
      | next hs ht => simp [hs, closing_ne_comma, ht, Except.map]

theorem skipStep_eq_ok_iff {p : Part} {stack : List Bracket} {n : Nesting} {s t : Bytes} :
    skipStep (p.nesting stack) s = .ok (n, t) ↔ Step p stack s n t := by
  cases p with
  | value => exact skipStep_value_eq_ok_iff
  | tail top isFirst => exact skipStep_tail_eq_ok_iff

/-! ### The fuel -/

/-- How many steps may follow at most. -/
def Nesting.measure (n : Nesting) (s : Bytes) : Nat :=
  2 * s.length + if n.next = .value then 0 else 1

/-- A step takes a byte, or goes on to a value. -/
theorem Step.measure_lt {p : Part} {stack : List Bracket} {n : Nesting} {s t : Bytes}
    (h : Step p stack s n t) : n.measure t < (p.nesting stack).measure s := by
  cases h with
  | scalar hs ht =>
    have hlt := Nat.lt_of_le_of_lt (length_skipScalar_le ht) (length_lt_of_skipBlank hs)
    simp [Nesting.measure, Part.nesting]
    omega
  | bracket top hs =>
    have hlt := length_lt_of_skipBlank hs
    simp [Nesting.measure, Part.nesting]
    omega
  | @close _ _ _ isFirst _ hs =>
    have hlt := length_lt_of_skipBlank hs
    cases isFirst <;> simp [Nesting.measure, Part.nesting] <;> omega
  | @enter _ _ _ isFirst _ he =>
    have hle := he.length_le
    cases isFirst <;> simp [Nesting.measure, Part.nesting] <;> omega

theorem skipPieces_step {p : Part} {stack : List Bracket} {n : Nesting} {s t : Bytes}
    (h : Step p stack s n t) (fuel : Nat) :
    skipPieces (fuel + 1) (p.nesting stack) s = skipPieces fuel n t := by
  have hgo : ((p.nesting stack).next == .comma && (p.nesting stack).stack.isEmpty) = false := by
    cases p with
    | value => rfl
    | tail top isFirst => cases isFirst <;> rfl
  rw [skipPieces, hgo, skipStep_eq_ok_iff.mpr h]
  rfl

/-- **A part is passed over** with fuel to spare for what follows it. -/
theorem Spans.skipPieces_eq {p : Part} {s rest : Bytes} (h : Spans p s rest) :
    ∀ (stack : List Bracket) (fuel : Nat), (p.nesting stack).measure s < fuel →
      ∃ fuel', (⟨.comma, stack⟩ : Nesting).measure rest < fuel' ∧
        skipPieces fuel (p.nesting stack) s = skipPieces fuel' ⟨.comma, stack⟩ rest := by
  -- One step leads into the part; what it holds is passed over with the bracket open.
  have hstep : ∀ {p : Part} (stack : List Bracket) {s t : Bytes} {n : Nesting} {fuel : Nat},
      Step p stack s n t → (p.nesting stack).measure s < fuel →
        ∃ fuel', n.measure t < fuel' ∧ skipPieces fuel (p.nesting stack) s = skipPieces fuel' n t := by
    intro p stack s t n fuel h hfuel
    have hlt := h.measure_lt
    obtain ⟨fuel', rfl⟩ : ∃ fuel', fuel = fuel' + 1 := ⟨fuel - 1, by omega⟩
    exact ⟨fuel', by omega, skipPieces_step h fuel'⟩
  induction h with
  | scalar hs ht =>
    intro stack fuel hfuel
    exact hstep stack (.scalar hs ht) hfuel
  | bracket top hs _ ih =>
    intro stack fuel hfuel
    obtain ⟨fuel₁, hfuel₁, h₁⟩ := hstep stack (.bracket top hs) hfuel
    obtain ⟨fuel₂, hfuel₂, h₂⟩ := ih stack fuel₁ hfuel₁
    exact ⟨fuel₂, hfuel₂, h₁.trans h₂⟩
  | close hs =>
    intro stack fuel hfuel
    exact hstep stack (.close hs) hfuel
  | @item _ _ _ _ top _ he _ _ ihv iht =>
    intro stack fuel hfuel
    obtain ⟨fuel₁, hfuel₁, h₁⟩ := hstep stack (.enter he) hfuel
    obtain ⟨fuel₂, hfuel₂, h₂⟩ := ihv (top :: stack) fuel₁ hfuel₁
    obtain ⟨fuel₃, hfuel₃, h₃⟩ := iht stack fuel₂ hfuel₂
    exact ⟨fuel₃, hfuel₃, h₁.trans (h₂.trans h₃)⟩

/-! ### What is left to pass over -/

/-- Open brackets are closed, one after the other. -/
def Closes : List Bracket → Bytes → Bytes → Prop
  | [], s, rest => s = rest
  | top :: outer, s, rest => ∃ t, Spans (.tail top false) s t ∧ Closes outer t rest

/-- **What is left to pass over** stands at the start of a text: what comes next, and then what closes
the brackets around it. -/
def Nesting.Completes : Nesting → Bytes → Bytes → Prop
  | ⟨.value, stack⟩, s, rest => ∃ t, Spans .value s t ∧ Closes stack t rest
  | ⟨.comma, stack⟩, s, rest => Closes stack s rest
  | ⟨.first, top :: outer⟩, s, rest => ∃ t, Spans (.tail top true) s t ∧ Closes outer t rest
  | ⟨.first, []⟩, _, _ => False

theorem Nesting.completes_nesting_iff {p : Part} {stack : List Bracket} {s rest : Bytes} :
    (p.nesting stack).Completes s rest ↔ ∃ t, Spans p s t ∧ Closes stack t rest := by
  cases p with
  | value => rfl
  | tail top isFirst => cases isFirst <;> rfl

/-- A step leads to what completes. -/
theorem Step.completes {p : Part} {stack : List Bracket} {n : Nesting} {s t rest : Bytes}
    (h : Step p stack s n t) (hn : n.Completes t rest) : (p.nesting stack).Completes s rest := by
  rw [Nesting.completes_nesting_iff]
  cases h with
  | scalar hs ht => exact ⟨_, .scalar hs ht, hn⟩
  | bracket top hs =>
    obtain ⟨u, hu, hrest⟩ := hn
    exact ⟨u, .bracket top hs hu, hrest⟩
  | close hs => exact ⟨_, .close hs, hn⟩
  | enter he =>
    obtain ⟨u, hu, v, hv, hrest⟩ := hn
    exact ⟨v, .item he hu hv, hrest⟩

/-- A place from which the reader goes on is a part, or the start of no bracket at all. -/
theorem Nesting.cases_of_goes {n : Nesting} (h : (n.next == .comma && n.stack.isEmpty) = false) :
    (∃ p stack, n = Part.nesting p stack) ∨ n = ⟨.first, []⟩ := by
  rcases n with ⟨next, stack⟩
  cases next with
  | value => exact .inl ⟨.value, stack, rfl⟩
  | first =>
    cases stack with
    | nil => exact .inr rfl
    | cons top outer => exact .inl ⟨.tail top true, outer, rfl⟩
  | comma =>
    cases stack with
    | nil => cases h
    | cons top outer => exact .inl ⟨.tail top false, outer, rfl⟩

/-- **What the reader passes over** is what there was to pass over. -/
theorem completes_of_skipPieces {fuel : Nat} {n : Nesting} {s rest : Bytes}
    (h : skipPieces fuel n s = .ok rest) : n.Completes s rest := by
  -- Backwards from the end: what a step leaves to pass over completes what it began with.
  induction fuel generalizing n s with
  | zero => cases h
  | succ fuel ih =>
    rw [skipPieces] at h
    cases hgo : (n.next == .comma && n.stack.isEmpty) with
    | true =>
      rw [hgo] at h
      rcases n with ⟨next, stack⟩
      simp only [Bool.and_eq_true, beq_iff_eq, List.isEmpty_iff] at hgo
      obtain ⟨rfl, rfl⟩ := hgo
      exact Except.ok.inj h
    | false =>
      rw [hgo] at h
      obtain ⟨p, stack, rfl⟩ | rfl := Nesting.cases_of_goes hgo
      · cases hstep : skipStep (p.nesting stack) s with
        | error f =>
          rw [hstep] at h
          cases h
        | ok x =>
          rcases x with ⟨n, t⟩
          rw [hstep] at h
          exact (skipStep_eq_ok_iff.mp hstep).completes (ih h)
      · -- There the reader stays until its fuel is spent.
        exact ih (s := skipBlank s) h

/-! ### Values -/

/-- **A value is passed over** exactly where one stands. -/
theorem skipValue_eq_ok_iff {s rest : Bytes} : skipValue s = .ok rest ↔ Spans .value s rest := by
  constructor
  · intro h
    obtain ⟨t, ht, rfl⟩ := completes_of_skipPieces h
    exact ht
  · intro h
    obtain ⟨fuel, hfuel, he⟩ := h.skipPieces_eq [] (2 * s.length + 2) (by
      simp [Nesting.measure, Part.nesting])
    rw [skipValue]
    refine Eq.trans he ?_
    obtain ⟨fuel', rfl⟩ : ∃ fuel', fuel = fuel' + 1 := ⟨fuel - 1, by omega⟩
    rfl

/-- At most one value stands at the start of a text. -/
theorem Spans.unique {s rest rest' : Bytes} (h : Spans .value s rest) (h' : Spans .value s rest') :
    rest = rest' := by
  have hs := skipValue_eq_ok_iff.mpr h
  rw [skipValue_eq_ok_iff.mpr h'] at hs
  exact (Except.ok.inj hs).symm

end ReleasePublisher.Json
