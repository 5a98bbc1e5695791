import ReleasePublisher.Text.Utf8

/-!
# JSON values

A value keeps the members of an object in the order in which they are written. Looking a member up
gives the last one of that name.

## Main definitions

* `Json`: a JSON value
* `Json.member? name v`: the value of a member of an object
* `Json.pointer? names v`: the value at the end of a path of member names
-/

namespace ReleasePublisher

/-- A number as a document states it: an integer within 64 bits, or a floating-point number given
by its bits. -/
inductive JsonNumber where
  /-- An integer that is not negative. -/
  | natural (n : Nat)
  /-- The integer `-n`. -/
  | negative (n : Nat)
  /-- A binary floating-point number of 64 bits. -/
  | real (bits : UInt64)
  deriving DecidableEq, Repr, Inhabited

/-- A JSON value. -/
inductive Json where
  | null
  | bool (b : Bool)
  | number (n : JsonNumber)
  | text (s : String)
  | array (items : List Json)
  | object (members : List (String × Json))
  deriving Repr, Inhabited

namespace Json

/-- The number `n`. -/
def ofNat (n : Nat) : Json :=
  .number (.natural n)

/-- The value, or `null` if there is none. -/
def ofOption {α : Type} (f : α → Json) : Option α → Json
  | some a => f a
  | none => .null

/-- The members of an object. -/
def members : Json → List (String × Json)
  | .object ms => ms
  | _ => []

/-- The value of the last member called `name`. -/
def lookup (name : String) (ms : List (String × Json)) : Option Json :=
  (ms.reverse.find? (·.1 == name)).map (·.2)

/-- The value of a member of an object: of several of one name, the last. -/
def member? (name : String) : Json → Option Json
  | .object ms => lookup name ms
  | _ => none

/-- The value at the end of a path of member names. -/
def pointer? : List String → Json → Option Json
  | [], v => some v
  | name :: rest, v => (v.member? name).bind (pointer? rest)

end Json

end ReleasePublisher
