import ReleasePublisher.Json.Real
import ReleasePublisher.Json.Value
import ReleasePublisher.Text.Hex

/-!
# Writing JSON values

A value is written either on one line without blanks, or with one element or member on a line of
its own, indented by two spaces for each open bracket.

## Main definitions

* `Json.textToken s`: a string with its quotes
* `Json.compact v`: the value on one line
* `Json.pretty v`: the value on indented lines
-/

namespace ReleasePublisher.Json

/-- A character as it stands in a string: quotes, backslashes and controls are escaped. -/
def escapeChar (c : Char) : List Char :=
  if c == '"' then ['\\', '"']
  else if c == '\\' then ['\\', '\\']
  else if c == '\x08' then ['\\', 'b']
  else if c == '\x0c' then ['\\', 'f']
  else if c == '\n' then ['\\', 'n']
  else if c == '\r' then ['\\', 'r']
  else if c == '\t' then ['\\', 't']
  else if c.toNat < 0x20 then
    ['\\', 'u', '0', '0', Hex.lowerDigit (c.toNat / 16), Hex.lowerDigit (c.toNat % 16)]
  else [c]

/-- A string with its quotes. -/
def textToken (s : String) : List Char :=
  '"' :: s.toList.flatMap escapeChar ++ ['"']

/-- The text of a number. -/
def numberToken : JsonNumber → List Char
  | .natural n => Nat.toDigits 10 n
  | .negative n => '-' :: Nat.toDigits 10 n
  | .real bits => (realText bits).toList

/-- The pieces, with `separator` between each two of them. -/
def joined (separator : List Char) (pieces : List (List Char)) : List Char :=
  List.intercalate separator pieces

mutual

/-- The value on one line, without blanks. -/
def compactChars : Json → List Char
  | .null => ['n', 'u', 'l', 'l']
  | .bool true => ['t', 'r', 'u', 'e']
  | .bool false => ['f', 'a', 'l', 's', 'e']
  | .number n => numberToken n
  | .text s => textToken s
  | .array vs => '[' :: joined [','] (compactItems vs) ++ [']']
  | .object ms => '{' :: joined [','] (compactMembers ms) ++ ['}']

/-- The elements of a list, each on one line. -/
def compactItems : List Json → List (List Char)
  | [] => []
  | v :: vs => compactChars v :: compactItems vs

/-- The members of an object, each on one line. -/
def compactMembers : List (String × Json) → List (List Char)
  | [] => []
  | (name, v) :: ms => (textToken name ++ ':' :: compactChars v) :: compactMembers ms

end

/-- A line break and the indentation below `level` open brackets. -/
def lineBreak (level : Nat) : List Char :=
  '\n' :: List.replicate (2 * level) ' '

/-- A bracketed list of pieces, each on a line of its own. -/
def block (level : Nat) (first last : Char) (pieces : List (List Char)) : List Char :=
  if pieces.isEmpty then [first, last]
  else first :: lineBreak (level + 1) ++ joined (',' :: lineBreak (level + 1)) pieces
    ++ lineBreak level ++ [last]

mutual

/-- The value on indented lines, below `level` open brackets. -/
def prettyChars (level : Nat) : Json → List Char
  | .array vs => block level '[' ']' (prettyItems (level + 1) vs)
  | .object ms => block level '{' '}' (prettyMembers (level + 1) ms)
  | v => compactChars v

/-- The elements of a list, on indented lines. -/
def prettyItems (level : Nat) : List Json → List (List Char)
  | [] => []
  | v :: vs => prettyChars level v :: prettyItems level vs

/-- The members of an object, on indented lines. -/
def prettyMembers (level : Nat) : List (String × Json) → List (List Char)
  | [] => []
  | (name, v) :: ms =>
    (textToken name ++ ':' :: ' ' :: prettyChars level v) :: prettyMembers level ms

end

/-- The value on one line, without blanks. -/
def compact (v : Json) : String :=
  String.ofList (compactChars v)

/-- The value on indented lines. -/
def pretty (v : Json) : String :=
  String.ofList (prettyChars 0 v)

end ReleasePublisher.Json
