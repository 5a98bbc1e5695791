import ReleasePublisher.Json.Printer
import ReleasePublisher.Json.Sequence
import ReleasePublisher.Text.Quoted

/-!
# Reading records

A record is a list of named fields. It is read from an object, whose members may stand in any
order, with members of other names between them; or from a list, whose elements are the fields in
the order of their declaration. A field may have a default for the case that it is missing; no
field may be given twice.

## Main definitions

* `Json.Datum`: what a field may hold
* `Json.Field`: a field's name, reader and default
* `Json.readNatural`, `Json.readText`, `Json.readOptional`, `Json.readMany`: readers of values
* `Json.readRecord name fields`: reads a record
-/

namespace ReleasePublisher.Json

/-- What a field may hold. -/
inductive Datum where
  | absent
  | count (n : Nat)
  | text (s : String)
  | record (fields : List Datum)
  | many (records : List (List Datum))
  deriving Repr, Inhabited

/-- A text, if there is one. -/
def Datum.text? : Datum → Option String
  | .text s => some s
  | _ => none

/-- What a message calls a number. -/
def foundNumber : JsonNumber → String
  | .real bits => "floating point `" ++ realText bits ++ "`"
  | n => "integer `" ++ String.ofList (numberToken n) ++ "`"

/-- The fault of a value that starts with the byte `b` where `expected` is expected. A value that
holds no other value is read first, which may find another fault. -/
def mistyped (expected : String) (b : UInt8) (rest : Bytes) : Fault :=
  let wrong (found : String) : Bytes → Fault := .before (.invalidType found expected)
  let named (found : String) : Except Fault Bytes → Fault
    | .error f => f
    | .ok rest => wrong found rest
  let number : Result JsonNumber → Fault
    | .error f => f
    | .ok (n, rest) => wrong (foundNumber n) rest
  if b == 0x6E then named "null" (word [0x75, 0x6C, 0x6C] rest)
  else if b == 0x74 then named "boolean `true`" (word [0x72, 0x75, 0x65] rest)
  else if b == 0x66 then named "boolean `false`" (word [0x61, 0x6C, 0x73, 0x65] rest)
  else if b == 0x2D then number (numeral false rest)
  else if isDigit b then number (numeral true (b :: rest))
  else if b == 0x22 then
    match textBody rest with
    | .error f => f
    | .ok (t, rest) => wrong ("string " ++ Text.quoted t) rest
  else if b == 0x5B then wrong "sequence" (b :: rest)
  else if b == 0x7B then wrong "map" (b :: rest)
  else .at .expectedValue (b :: rest)

/-- Reads a natural number of 64 bits. -/
def readNatural (s : Bytes) : Result Nat :=
  let expected := "u64"
  let checked : Result JsonNumber → Result Nat
    | .error f => .error f
    | .ok (.natural n, rest) => .ok (n, rest)
    | .ok (.negative n, rest) =>
      .error (.before (.invalidValue (foundNumber (.negative n)) expected) rest)
    | .ok (.real bits, rest) =>
      .error (.before (.invalidType (foundNumber (.real bits)) expected) rest)
  match skipBlank s with
  | [] => .error ⟨.endOfValue, 0⟩
  | b :: rest =>
    if b == 0x2D then checked (numeral false rest)
    else if isDigit b then checked (numeral true (b :: rest))
    else .error (mistyped expected b rest)

/-- Reads a text; `expected` is what a message calls it. -/
def readText (expected : String) (s : Bytes) : Result String :=
  match skipBlank s with
  | [] => .error ⟨.endOfValue, 0⟩
  | b :: rest => if b == 0x22 then textBody rest else .error (mistyped expected b rest)

/-- Reads `null` or a value. -/
def readOptional (item : Bytes → Result Datum) (s : Bytes) : Result Datum :=
  match skipBlank s with
  | [] => item s
  | b :: rest =>
    if b == 0x6E then (word [0x75, 0x6C, 0x6C] rest).map (.absent, ·) else item s

/-- Reads a list. -/
def readMany {α : Type} (item : Bytes → Result α) (s : Bytes) : Result (List α) :=
  match skipBlank s with
  | [] => .error ⟨.endOfValue, 0⟩
  | b :: rest => if b == 0x5B then listBody item rest else .error (mistyped "a sequence" b rest)

/-- A field of a record. -/
structure Field where
  name : String
  read : Bytes → Result Datum
  /-- What the field holds where it is missing; without a default it may not be missing. -/
  fallback : Option Datum

/-- A field that holds a natural number. -/
def Field.natural (name : String) (fallback : Option Nat) : Field :=
  ⟨name, fun s => (readNatural s).map fun (n, s) => (.count n, s), fallback.map .count⟩

/-- A field that holds a text and may not be missing. -/
def Field.text (name : String) : Field :=
  ⟨name, fun s => (readText "a string" s).map fun (t, s) => (.text t, s), none⟩

/-- A field that may hold a text, called `expected` in messages. -/
def Field.optionalText (name expected : String) : Field :=
  ⟨name, readOptional fun s => (readText expected s).map fun (t, s) => (.text t, s), some .absent⟩

/-- The rest after the end of an object, where a fault of the whole object is reported. -/
def afterObject (s : Bytes) : Bytes :=
  match skipBlank s with
  | [] => []
  | b :: rest => if b == 0x7D then rest else b :: rest

/-- The rest after the end of a list, where a fault of the whole list is reported. -/
def afterList (s : Bytes) : Bytes :=
  match skipBlank s with
  | [] => []
  | b :: rest => if b == 0x5D then rest else if b == 0x2C then skipBlank rest else b :: rest

/-- Reads the fields of a record from the members of an object, up to the closing brace. The places
of the fields are filled as the members are met. -/
def fieldMembers (fields : List Field) :
    Nat → Bool → List (Option Datum) → Bytes → Except Fault (List (Option Datum) × Bytes)
  | 0, _, _, s => .error (.before .tooDeep s)
  | fuel + 1, isFirst, places, s => do
    let (more, s) ← nextMember isFirst s
    if !more then return (places, s)
    let (name, s) ← textBody (s.drop 1)
    match fields.findIdx? (·.name == name), fields.find? (·.name == name) with
    | some i, some field =>
      -- The field is refused before its value is read.
      if (places[i]?.join).isSome then .error (.before (.duplicateField name) (afterObject s))
      let (d, s) ← field.read (← colon s)
      fieldMembers fields fuel false (places.set i (some d)) s
    | _, _ =>
      let s ← skipValue (← colon s)
      fieldMembers fields fuel false places s

/-- The fields of a record, missing ones by their defaults; or the name of the first field that is
missing and has none. -/
def complete : List Field → List (Option Datum) → Except String (List Datum)
  | [], _ => .ok []
  | field :: fields, places =>
    match places.head?.join <|> field.fallback with
    | some d => (complete fields places.tail).map (d :: ·)
    | none => .error field.name

/-- Reads the fields of a record from the elements of a list. `index` counts the fields before
these. -/
def fieldElements (expected : String) :
    List Field → Nat → Bool → Bytes → Except Fault (List Datum × Bytes)
  | [], _, _, s => .ok ([], s)
  | field :: fields, index, isFirst, s => do
    let (more, s) ← nextElement isFirst s
    let (d, s) ←
      if more then field.read s
      else match field.fallback with
        | some d => .ok (d, s)
        | none => .error (.before (.invalidLength index expected) (afterList s))
    -- Once an element was read, the next one needs a comma before it.
    let (ds, s) ← fieldElements expected fields (index + 1) (isFirst && !more) s
    return (d :: ds, s)

/-- Reads a record called `name` in messages. -/
def readRecord (name : String) (fields : List Field) (s : Bytes) :
    Except Fault (List Datum × Bytes) := do
  let expected := "struct " ++ name
  match skipBlank s with
  | [] => .error ⟨.endOfValue, 0⟩
  | b :: rest =>
    if b == 0x5B then
      let full := expected ++ " with " ++ toString fields.length ++
        (if fields.length == 1 then " element" else " elements")
      let (ds, s) ← fieldElements full fields 0 true rest
      return (ds, ← endList s)
    else if b == 0x7B then
      let (places, s) ← fieldMembers fields (rest.length + 1) true (fields.map fun _ => none) rest
      match complete fields places with
      | .error missing => .error (.before (.missingField missing) (afterObject s))
      | .ok ds => return (ds, ← endObject s)
    else .error (mistyped expected b rest)

end ReleasePublisher.Json
