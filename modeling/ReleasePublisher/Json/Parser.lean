import ReleasePublisher.Json.Sequence

/-!
# Reading JSON values

## Main definitions

* `Json.value depth`: reads a value in which at most `depth` brackets are open at once
* `Json.parse s`: the value that a whole text states
-/

namespace ReleasePublisher.Json

/-- The greatest number of brackets that may be open at once. -/
def maxDepth : Nat := 127

/-- Reads a value that holds no other value. -/
def scalar (b : UInt8) (rest : Bytes) : Result Json :=
  if b == 0x6E then (word [0x75, 0x6C, 0x6C] rest).map (.null, ·)
  else if b == 0x74 then (word [0x72, 0x75, 0x65] rest).map (.bool true, ·)
  else if b == 0x66 then (word [0x61, 0x6C, 0x73, 0x65] rest).map (.bool false, ·)
  else if b == 0x2D then (numeral false rest).map fun (n, s) => (.number n, s)
  else if isDigit b then (numeral true (b :: rest)).map fun (n, s) => (.number n, s)
  else if b == 0x22 then (textBody rest).map fun (t, s) => (.text t, s)
  else .error (.at .expectedValue (b :: rest))

/-- Reads a value in which at most `depth` brackets are open at once. -/
def value : Nat → Bytes → Result Json
  | depth, s =>
    match skipBlank s with
    | [] => .error ⟨.endOfValue, 0⟩
    | b :: rest =>
      if b == 0x5B then
        match depth with
        | 0 => .error (.at .tooDeep (b :: rest))
        | depth + 1 => (listBody (value depth) rest).map fun (vs, s) => (.array vs, s)
      else if b == 0x7B then
        match depth with
        | 0 => .error (.at .tooDeep (b :: rest))
        | depth + 1 => (objectBody (value depth) rest).map fun (ms, s) => (.object ms, s)
      else scalar b rest

/-- The value that a whole text states. -/
def parse (s : Bytes) : Except Fault Json :=
  wholeText (value maxDepth) s

end ReleasePublisher.Json
