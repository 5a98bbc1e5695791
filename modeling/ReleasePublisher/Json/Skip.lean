import ReleasePublisher.Json.Lexer

/-!
# Skipping a value

A value that nobody asked for is passed over without being built: its numbers have no range, its
strings need not be UTF-8, and it may be nested to any depth. The reader keeps the brackets that
are open and takes one step for each piece of the text.

## Main definitions

* `Json.Bracket`: an open list or object
* `Json.skipStep`: passes over one piece of the text
* `Json.skipValue`: passes over one value
-/

namespace ReleasePublisher.Json

/-- An open list or object. -/
inductive Bracket where
  | list
  | object
  deriving DecidableEq, Repr

/-- The byte that closes a bracket. -/
def Bracket.closing : Bracket → UInt8
  | list => 0x5D
  | object => 0x7D

/-- The fault of a text that ends inside a bracket. -/
def Bracket.endReason : Bracket → Reason
  | list => .endOfList
  | object => .endOfObject

/-- The fault of a text that has neither a comma nor the closing byte. -/
def Bracket.commaReason : Bracket → Reason
  | list => .expectedCommaOrBracket
  | object => .expectedCommaOrBrace

/-- Passes over a string from behind its opening quote. -/
def skipText : Bytes → Except Fault Bytes
  | [] => .error ⟨.endOfString, 0⟩
  | b :: rest =>
    if b == 0x22 then .ok rest
    else if b == 0x5C then
      match rest with
      | [] => .error ⟨.endOfString, 0⟩
      | e :: after =>
        if (simpleEscape? e).isSome then skipText after
        else if e == 0x75 then
          match fourDigits after with
          | .error f => .error f
          | .ok _ => skipText (after.drop 4)
        else .error (.before .invalidEscape after)
    -- The place is before the character, since it is not taken.
    else if b < 0x20 then .error (.before .controlCharacter (b :: rest))
    else skipText rest
termination_by s => s.length
decreasing_by all_goals (simp only [List.length_drop, List.length_cons]; omega)

/-- Passes over an exponent from behind its letter. -/
def skipExponent (s : Bytes) : Except Fault Bytes :=
  match (exponentSign s).2 with
  | [] => .error ⟨.invalidNumber, 0⟩
  | b :: rest =>
    if isDigit b then .ok (rest.dropWhile isDigit) else .error (.before .invalidNumber rest)

/-- Passes over what may follow the integer part of a number. -/
def skipFraction (s : Bytes) : Except Fault Bytes :=
  match s with
  | [] => .ok []
  | b :: rest =>
    if b == 0x2E then
      if !startsDigit rest then .error (.at .invalidNumber rest)
      else
        let rest := rest.dropWhile isDigit
        if startsExponent rest then skipExponent (rest.drop 1) else .ok rest
    else if startsExponent s then skipExponent rest
    else .ok s

/-- Passes over a number from behind its sign. -/
def skipNumeral : Bytes → Except Fault Bytes
  | [] => .error ⟨.invalidNumber, 0⟩
  | b :: rest =>
    if !isDigit b then .error (.before .invalidNumber rest)
    else if b == 0x30 then
      if startsDigit rest then .error (.at .invalidNumber rest) else skipFraction rest
    else skipFraction (rest.dropWhile isDigit)

/-- Passes over blanks and a colon. -/
def colon (s : Bytes) : Except Fault Bytes :=
  match skipBlank s with
  | [] => .error ⟨.endOfObject, 0⟩
  | b :: rest => if b == 0x3A then .ok rest else .error (.at .expectedColon (b :: rest))

/-- Passes over a member's name and the colon behind it. -/
def skipName (s : Bytes) : Except Fault Bytes :=
  match skipBlank s with
  | [] => .error ⟨.endOfObject, 0⟩
  | b :: rest =>
    if b == 0x22 then do colon (← skipText rest) else .error (.at .keyNotText (b :: rest))

/-- Passes over a value that holds no other value. -/
def skipScalar (b : UInt8) (rest : Bytes) : Except Fault Bytes :=
  if b == 0x6E then word [0x75, 0x6C, 0x6C] rest
  else if b == 0x74 then word [0x72, 0x75, 0x65] rest
  else if b == 0x66 then word [0x61, 0x6C, 0x73, 0x65] rest
  else if b == 0x2D then skipNumeral rest
  else if isDigit b then skipNumeral (b :: rest)
  else if b == 0x22 then skipText rest
  else .error (.at .expectedValue (b :: rest))

/-- What is to be passed over next. -/
inductive Expect where
  /-- A value. -/
  | value
  /-- The first element or member of the innermost bracket, or its end. -/
  | first
  /-- A comma, or the end of the innermost bracket. -/
  | comma
  deriving DecidableEq, Repr

/-- Where a reader stands in a value: what is next, and the open brackets, innermost first. -/
structure Nesting where
  next : Expect
  stack : List Bracket
  deriving DecidableEq, Repr

/-- Passes over one piece of a text. -/
def skipStep (n : Nesting) (s : Bytes) : Except Fault (Nesting × Bytes) :=
  let s := skipBlank s
  match n.next with
  | .value =>
    match s with
    | [] => .error ⟨.endOfValue, 0⟩
    | b :: rest =>
      if b == 0x5B then .ok (⟨.first, .list :: n.stack⟩, rest)
      else if b == 0x7B then .ok (⟨.first, .object :: n.stack⟩, rest)
      else (skipScalar b rest).map (⟨.comma, n.stack⟩, ·)
  | next =>
    match n.stack, s with
    | [], s => .ok (n, s)
    | top :: _, [] => .error ⟨top.endReason, 0⟩
    | top :: outer, b :: rest =>
      let enter (s : Bytes) : Except Fault (Nesting × Bytes) :=
        match top with
        | .list => .ok (⟨.value, n.stack⟩, s)
        | .object => (skipName s).map (⟨.value, n.stack⟩, ·)
      if b == top.closing then .ok (⟨.comma, outer⟩, rest)
      else if next == .first then enter s
      else if b == 0x2C then enter rest
      else .error (.at top.commaReason s)

/-- Passes over pieces until no bracket is open. -/
def skipPieces : Nat → Nesting → Bytes → Except Fault Bytes
  | 0, _, s => .error (.before .tooDeep s)
  | fuel + 1, n, s =>
    if n.next == .comma && n.stack.isEmpty then .ok s
    else match skipStep n s with
      | .error f => .error f
      | .ok (n, s) => skipPieces fuel n s

/-- Passes over one value. Two steps are taken at most for each byte of the text, so the fuel
suffices. -/
def skipValue (s : Bytes) : Except Fault Bytes :=
  skipPieces (2 * s.length + 2) ⟨.value, []⟩ s

end ReleasePublisher.Json
