import ReleasePublisher.Text.Utf8

/-!
# Why a JSON text is refused

A fault says what was found and where. The place is kept as the number of bytes that were still to
be read: a reader that works on the rest of its input needs no counter, and the rest of the whole
text turns it into a line and a column.

## Main definitions

* `Json.Reason`: the kinds of fault, with their messages
* `Json.Fault`: a reason and the number of bytes still to be read
* `Json.lineColumn n text`: line and column after the first `n` bytes
* `Json.Fault.message text f`: the message, with the place in `text`
-/

namespace ReleasePublisher.Json

/-- The kinds of fault. -/
inductive Reason where
  | endOfList
  | endOfObject
  | endOfString
  | endOfValue
  | expectedColon
  | expectedCommaOrBracket
  | expectedCommaOrBrace
  | expectedWord
  | expectedValue
  | invalidEscape
  | invalidNumber
  | numberOutOfRange
  | invalidCodePoint
  | controlCharacter
  | keyNotText
  | loneSurrogate
  | unexpectedEndOfEscape
  | trailingComma
  | trailingCharacters
  | tooDeep
  /-- A value of a kind that has no place here. -/
  | invalidType (found expected : String)
  /-- A value of the right kind that is out of range. -/
  | invalidValue (found expected : String)
  /-- A list with too few elements for a record. -/
  | invalidLength (length : Nat) (expected : String)
  | duplicateField (name : String)
  | missingField (name : String)
  deriving DecidableEq, Repr

/-- What a reason says. -/
def Reason.message : Reason → String
  | endOfList => "EOF while parsing a list"
  | endOfObject => "EOF while parsing an object"
  | endOfString => "EOF while parsing a string"
  | endOfValue => "EOF while parsing a value"
  | expectedColon => "expected `:`"
  | expectedCommaOrBracket => "expected `,` or `]`"
  | expectedCommaOrBrace => "expected `,` or `\x7d`"
  | expectedWord => "expected ident"
  | expectedValue => "expected value"
  | invalidEscape => "invalid escape"
  | invalidNumber => "invalid number"
  | numberOutOfRange => "number out of range"
  | invalidCodePoint => "invalid unicode code point"
  | controlCharacter => "control character (\\u0000-\\u001F) found while parsing a string"
  | keyNotText => "key must be a string"
  | loneSurrogate => "lone leading surrogate in hex escape"
  | unexpectedEndOfEscape => "unexpected end of hex escape"
  | trailingComma => "trailing comma"
  | trailingCharacters => "trailing characters"
  | tooDeep => "recursion limit exceeded"
  | invalidType found expected => "invalid type: " ++ found ++ ", expected " ++ expected
  | invalidValue found expected => "invalid value: " ++ found ++ ", expected " ++ expected
  | invalidLength n expected => "invalid length " ++ toString n ++ ", expected " ++ expected
  | duplicateField name => "duplicate field `" ++ name ++ "`"
  | missingField name => "missing field `" ++ name ++ "`"

/-- A reason, and the number of bytes that were still to be read. -/
structure Fault where
  reason : Reason
  left : Nat
  deriving DecidableEq, Repr

/-- The fault found after everything up to `rest` was read. -/
def Fault.before (reason : Reason) (rest : Bytes) : Fault :=
  ⟨reason, rest.length⟩

/-- The fault found at the first byte of `rest`, which counts as read. -/
def Fault.at (reason : Reason) (rest : Bytes) : Fault :=
  ⟨reason, rest.length - 1⟩

/-- Line and column after the first `n` bytes: lines count from one, columns count the bytes since
the last line feed. -/
def lineColumn (n : Nat) (text : Bytes) : Nat × Nat :=
  -- A line feed that was read begins the next line at column zero.
  (text.take n).foldl (fun p b => if b == 10 then (p.1 + 1, 0) else (p.1, p.2 + 1))
    ((1, 0) : Nat × Nat)

/-- The message of a fault in `text`, with its place. -/
def Fault.message (text : Bytes) (f : Fault) : String :=
  let (line, column) := lineColumn (text.length - f.left) text
  f.reason.message ++ " at line " ++ toString line ++ " column " ++ toString column

end ReleasePublisher.Json
