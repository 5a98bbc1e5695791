import ReleasePublisher.Json.Skip

/-!
# Elements and members

How the elements of a list and the members of an object follow each other, for any reader of the
values themselves.

## Main definitions

* `Json.nextElement`, `Json.nextMember`: passes over the comma before an element or a member
* `Json.endList`, `Json.endObject`: passes over a closing bracket
* `Json.elements item`: reads elements up to the closing bracket
* `Json.pairs item`: reads members up to the closing brace
-/

namespace ReleasePublisher.Json

/-- Passes over the comma before an element. The answer tells whether there is an element. -/
def nextElement (isFirst : Bool) (s : Bytes) : Except Fault (Bool × Bytes) :=
  match skipBlank s with
  | [] => .error ⟨.endOfList, 0⟩
  | b :: rest =>
    if b == 0x5D then .ok (false, b :: rest)
    else if isFirst then .ok (true, b :: rest)
    else if b != 0x2C then .error (.at .expectedCommaOrBracket (b :: rest))
    else match skipBlank rest with
      | [] => .error ⟨.endOfValue, 0⟩
      | c :: rest =>
        if c == 0x5D then .error (.at .trailingComma (c :: rest)) else .ok (true, c :: rest)

/-- Passes over the comma before a member. The answer tells whether there is a member; if so, the
rest starts with the opening quote of its name. -/
def nextMember (isFirst : Bool) (s : Bytes) : Except Fault (Bool × Bytes) :=
  match skipBlank s with
  | [] => .error ⟨.endOfObject, 0⟩
  | b :: rest =>
    if b == 0x7D then .ok (false, b :: rest)
    else if isFirst then
      if b == 0x22 then .ok (true, b :: rest) else .error (.at .keyNotText (b :: rest))
    else if b != 0x2C then .error (.at .expectedCommaOrBrace (b :: rest))
    else match skipBlank rest with
      | [] => .error ⟨.endOfValue, 0⟩
      | c :: rest =>
        if c == 0x22 then .ok (true, c :: rest)
        else if c == 0x7D then .error (.at .trailingComma (c :: rest))
        else .error (.at .keyNotText (c :: rest))

/-- Passes over the bracket that closes a list. -/
def endList (s : Bytes) : Except Fault Bytes :=
  match skipBlank s with
  | [] => .error ⟨.endOfList, 0⟩
  | b :: rest =>
    if b == 0x5D then .ok rest
    else if b == 0x2C then
      -- A comma is a fault here in any case; what follows it decides which.
      let rest := skipBlank rest
      .error (.at (if rest.head? == some 0x5D then .trailingComma else .trailingCharacters) rest)
    else .error (.at .trailingCharacters (b :: rest))

/-- Passes over the brace that closes an object. -/
def endObject (s : Bytes) : Except Fault Bytes :=
  match skipBlank s with
  | [] => .error ⟨.endOfObject, 0⟩
  | b :: rest =>
    if b == 0x7D then .ok rest
    else .error (.at (if b == 0x2C then .trailingComma else .trailingCharacters) (b :: rest))

variable {α : Type}

/-- Reads elements up to the closing bracket. -/
def elements (item : Bytes → Result α) : Nat → Bool → Bytes → Except Fault (List α × Bytes)
  | 0, _, s => .error (.before .tooDeep s)
  | fuel + 1, isFirst, s => do
    let (more, s) ← nextElement isFirst s
    if more then
      let (a, s) ← item s
      let (as, s) ← elements item fuel false s
      return (a :: as, s)
    else return ([], s)

/-- Reads a member's name and the colon behind it. -/
def memberName (s : Bytes) : Except Fault (String × Bytes) := do
  let (name, s) ← textBody (s.drop 1)
  return (name, ← colon s)

/-- Reads members up to the closing brace. -/
def pairs (item : Bytes → Result α) : Nat → Bool → Bytes → Except Fault (List (String × α) × Bytes)
  | 0, _, s => .error (.before .tooDeep s)
  | fuel + 1, isFirst, s => do
    let (more, s) ← nextMember isFirst s
    if more then
      let (name, s) ← memberName s
      let (a, s) ← item s
      let (as, s) ← pairs item fuel false s
      return ((name, a) :: as, s)
    else return ([], s)

/-- Reads a list from behind its opening bracket. Each element takes at least one byte, so the fuel
suffices. -/
def listBody (item : Bytes → Result α) (s : Bytes) : Result (List α) :=
  match elements item (s.length + 1) true s with
  | .error f => .error f
  | .ok (as, s) => (endList s).map (as, ·)

/-- Reads an object from behind its opening brace. Each member takes at least one byte, so the fuel
suffices. -/
def objectBody (item : Bytes → Result α) (s : Bytes) : Result (List (String × α)) :=
  match pairs item (s.length + 1) true s with
  | .error f => .error f
  | .ok (as, s) => (endObject s).map (as, ·)

/-- Reads a whole text: one value, with nothing but blanks around it. -/
def wholeText (item : Bytes → Result α) (s : Bytes) : Except Fault α :=
  match item s with
  | .error f => .error f
  | .ok (a, rest) =>
    match skipBlank rest with
    | [] => .ok a
    | b :: rest => .error (.at .trailingCharacters (b :: rest))

end ReleasePublisher.Json
