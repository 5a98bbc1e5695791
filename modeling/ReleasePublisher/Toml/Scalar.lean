import ReleasePublisher.Text.Hex
import ReleasePublisher.Toml.Statement

/-!
# What the tokens of a TOML text mean

Names and strings are read with their escapes; other scalars are booleans, integers of 64 bits,
floating-point numbers, dates and times.

## Main definitions

* `Toml.Scalar`: the meaning of a token
* `Toml.readName t`: the name that a token states
* `Toml.readScalar t`: the scalar that a token states
-/

namespace ReleasePublisher.Toml

/-- The meaning of a token. -/
inductive Scalar where
  | text (s : String)
  | integer (i : Int)
  | float (x : Float)
  | boolean (b : Bool)
  /-- A date, a time, or both. -/
  | datetime
  deriving Repr

/-- The fault of the single character at `i`. -/
def charFault (description : String) (i : Nat) : Fault :=
  ⟨description, i, i + 1⟩

/-! ### Strings -/

/-- The character that a one-letter escape stands for. -/
def simpleEscape? : Char → Option Char
  | 'b' => some '\x08'
  | 'e' => some '\x1b'
  | 'f' => some '\x0c'
  | 'n' => some '\n'
  | 'r' => some '\r'
  | 't' => some '\t'
  | '\\' => some '\\'
  | '"' => some '"'
  | _ => none

/-- How many hexadecimal digits an escape has. -/
def escapeDigits? : Char → Option Nat
  | 'x' => some 2
  | 'u' => some 4
  | 'U' => some 8
  | _ => none

/-- The character that `n` hexadecimal digits at `i` state. -/
def numberedChar (n i : Nat) (cs : List Char) : Except Fault Char :=
  let digits := (cs.take n).takeWhile fun c => (Hex.value? c).isSome
  let v := digits.foldl (fun v c => v * 16 + (Hex.value? c).getD 0) 0
  if digits.length < n then
    let i := i + digits.length
    .error ⟨"too few unicode value digits, expected unicode hexadecimal value", i, i⟩
  else if v < 0xD800 || (0xDFFF < v && v ≤ 0x10FFFF) then .ok (Char.ofNat v)
  else .error ⟨"invalid value, expected unicode hexadecimal value", i, i + n⟩

/-- The characters behind a backslash that ends a line: blanks and line breaks. -/
def isLineBlank (c : Char) : Bool :=
  c == ' ' || c == '\t' || c == '\n' || c == '\r'

/-- What is said of a backslash with no escape behind it. -/
def missingEscape : String :=
  "missing escaped value, expected `b`, `f`, `n`, `r`, `\\`, `\"`, `u`, `U`"

/-- What is said of a control character in a string with escapes. -/
def hiddenInString : String :=
  "invalid basic string, expected non-double-quote visible characters, `\\`"

/-- What is said of a control character in a string without escapes. -/
def hiddenInLiteral : String :=
  "invalid literal string, expected non-single-quote visible characters"

/-- Reads the characters of a string with escapes, which stand at `i`. A string of several lines
may hold line breaks, and a backslash at the end of a line takes blanks and line breaks along. -/
def unescape (isLong : Bool) (i : Nat) : List Char → Except Fault (List Char)
  | [] => .ok []
  | c :: rest =>
    if c == '\\' then
      match rest.head? with
      | none => .error ⟨missingEscape, i + 1, i + 1⟩
      | some e =>
        match simpleEscape? e, escapeDigits? e with
        | some c, _ => (unescape isLong (i + 2) (rest.drop 1)).map (c :: ·)
        | none, some n =>
          match numberedChar n (i + 2) (rest.drop 1) with
          | .error f => .error f
          | .ok c => (unescape isLong (i + 2 + n) (rest.drop (n + 1))).map (c :: ·)
        | none, none =>
          -- A backslash at the end of a line takes the blanks along, if a line does end there.
          let n := (rest.takeWhile isLineBlank).length
          if isLong && (rest.take n).contains '\n' then
            unescape isLong (i + 1 + n) (rest.drop n)
          else .error (charFault missingEscape (i + 1))
    else if isLong && c == '\n' then (unescape isLong (i + 1) rest).map (c :: ·)
    else if isLong && c == '\r' then
      if rest.head? == some '\n' then (unescape isLong (i + 1) rest).map (c :: ·)
      else .error ⟨loneReturn, i + 1, i + 1⟩
    else if isControl c then .error (charFault hiddenInString i)
    else (unescape isLong (i + 1) rest).map (c :: ·)
termination_by cs => cs.length
decreasing_by all_goals (simp only [List.length_drop, List.length_cons]; omega)

/-- The characters without a line break at their start, and how many were dropped. -/
def dropLineBreak : List Char → List Char × Nat
  | '\n' :: rest => (rest, 1)
  | '\r' :: '\n' :: rest => (rest, 2)
  | cs => (cs, 0)

/-- The characters between quotes, `n` on each side, if the closing ones are there. -/
def between (n : Nat) (q : Char) (cs : List Char) : Option (List Char) :=
  let inner := cs.drop n
  if n ≤ inner.length && inner.drop (inner.length - n) == List.replicate n q then
    some (inner.take (inner.length - n))
  else none

/-- The fault of a string that is not closed. -/
def unclosed (description : String) (t : Token) : Fault :=
  ⟨description, t.stop, t.stop⟩

/-- The characters of a string without escapes hold no control characters; a string of several
lines may hold line breaks. -/
def checkLiteral (isLong : Bool) (i : Nat) (cs : List Char) : Except Fault (List Char) :=
  match cs.findIdx? fun c => isControl c && !(isLong && (c == '\n' || c == '\r')) with
  | some n => .error (charFault hiddenInLiteral (i + n))
  | none => .ok cs

/-- Reads the string that a token states. -/
def readText (t : Token) : Except Fault String :=
  let chars : Except Fault (List Char) :=
    match t.kind with
    | .basic =>
      match between 1 '"' t.chars with
      | some cs => unescape false (t.start + 1) cs
      | none => .error (unclosed "invalid basic string, expected `\"`" t)
    | .longBasic =>
      match between 3 '"' t.chars with
      | some cs =>
        let (cs, n) := dropLineBreak cs
        unescape true (t.start + 3 + n) cs
      | none => .error (unclosed "invalid multi-line basic string, expected `\"`" t)
    | .literal =>
      match between 1 '\'' t.chars with
      | some cs => checkLiteral false (t.start + 1) cs
      | none => .error (unclosed "invalid literal string, expected `'`" t)
    | .longLiteral =>
      match between 3 '\'' t.chars with
      | some cs =>
        let (cs, n) := dropLineBreak cs
        checkLiteral true (t.start + 3 + n) cs
      | none => .error (unclosed "invalid multi-line literal string, expected `'`" t)
    | _ => .ok t.chars
  chars.map String.ofList

/-! ### Names -/

/-- A character that a name without quotes may hold. -/
def isBareChar (c : Char) : Bool :=
  c.isAlphanum || c == '-' || c == '_'

/-- The name that a token states. -/
def readName (t : Token) : Except Fault String :=
  match t.kind with
  | .basic | .literal => readText t
  | .longBasic | .longLiteral =>
    .error (wrongToken "keys cannot be multi-line strings, expected basic string, literal string" t)
  | _ =>
    if t.chars.isEmpty then
      .error (wrongToken "unquoted keys cannot be empty, expected letters, numbers, `-`, `_`" t)
    else match t.chars.findIdx? (!isBareChar ·) with
      | some i =>
        .error (charFault "invalid unquoted key, expected letters, numbers, `-`, `_`" (t.start + i))
      | none => .ok (String.ofList t.chars)

/-! ### Numbers -/

/-- The number that digits state in a base. -/
def digitsValue (base : Nat) (ds : List Char) : Nat :=
  ds.foldl (fun v d => v * base + (Hex.value? d).getD 0) 0

/-- The characters are digits of a base, at least one. -/
def areDigits (base : Nat) (ds : List Char) : Bool :=
  !ds.isEmpty && ds.all fun d => (Hex.value? d).any (· < base)

/-- The sign of a number, and the characters behind it. -/
def splitSign : List Char → Bool × List Char
  | '-' :: rest => (true, rest)
  | '+' :: rest => (false, rest)
  | cs => (false, cs)

/-- The digits are decimal, at least one, with no zero in front of others. -/
def isWhole (ds : List Char) : Bool :=
  areDigits 10 ds && (ds.length == 1 || ds.head? != some '0')

/-- The integer that characters without underscores state, if it fits 64 bits. -/
def integer? (cs : List Char) : Option Int :=
  let checked (negative : Bool) (n : Nat) : Option Int :=
    if negative then if n ≤ Nat.pow 2 63 then some (-(n : Int)) else none
    else if n < Nat.pow 2 63 then some n else none
  let based (base : Nat) (ds : List Char) : Option Int :=
    if areDigits base ds then checked false (digitsValue base ds) else none
  match cs with
  | '0' :: 'x' :: ds => based 16 ds
  | '0' :: 'o' :: ds => based 8 ds
  | '0' :: 'b' :: ds => based 2 ds
  | _ =>
    let (negative, ds) := splitSign cs
    if isWhole ds then checked negative (digitsValue 10 ds) else none

/-- The floating-point number that characters without underscores state, if it is finite. -/
def decimal? (cs : List Char) : Option Float :=
  let (negative, cs) := splitSign cs
  let isExponent (c : Char) : Bool := c == 'e' || c == 'E'
  let mantissa := cs.takeWhile (!isExponent ·)
  let whole := mantissa.takeWhile (· != '.')
  let fraction := mantissa.drop (whole.length + 1)
  let hasPoint := whole.length < mantissa.length
  let (down, exponent) := splitSign (cs.drop (mantissa.length + 1))
  let hasExponent := mantissa.length < cs.length
  if isWhole whole && (hasPoint || hasExponent) && (!hasPoint || areDigits 10 fraction) &&
      (!hasExponent || areDigits 10 exponent) then
    let e : Int := digitsValue 10 exponent
    let e := (if down then -e else e) - fraction.length
    -- Beyond these exponents the number is zero or too large in any case.
    let e := max (-5000) (min 5000 e)
    let x := Float.ofScientific (digitsValue 10 (whole ++ fraction)) (e < 0) e.natAbs
    if x.isInf then none else some (if negative then -x else x)
  else none

/-- The special floating-point number that characters name. -/
def special? (cs : List Char) : Option Float :=
  let (negative, cs) := splitSign cs
  if cs == ['i', 'n', 'f'] then some (if negative then -1.0 / 0.0 else 1.0 / 0.0)
  else if cs == ['n', 'a', 'n'] then some (0.0 / 0.0)
  else none

/-- The place of an underscore that does not stand between digits, counted from the first
character. -/
def misplacedUnderscore? (cs : List Char) : Option Nat :=
  let base := if cs.take 2 == ['0', 'x'] then 16 else 10
  let isDigit (i : Nat) : Bool := (cs[i]?).any fun c => areDigits base [c]
  if cs.head? == some '_' then some 0
  else if cs.getLast? == some '_' then some (cs.length - 1)
  else (List.range cs.length).find? fun i =>
    cs[i]? == some '_' && !(0 < i && isDigit (i - 1) && isDigit (i + 1))

/-! ### Dates and times -/

/-- The number that exactly `n` decimal digits state, and the characters behind them. -/
def fixedDigits (n : Nat) (cs : List Char) : Option (Nat × List Char) :=
  let ds := cs.take n
  if ds.length == n && areDigits 10 ds then some (digitsValue 10 ds, cs.drop n) else none

/-- Passes over a character. -/
def expectChar (c : Char) (cs : List Char) : Option (List Char) :=
  if cs.head? == some c then some (cs.drop 1) else none

/-- The number of days of a month. -/
def monthDays (year month : Nat) : Nat :=
  if month == 2 then
    if year % 4 == 0 && (year % 100 != 0 || year % 400 == 0) then 29 else 28
  else if month == 4 || month == 6 || month == 9 || month == 11 then 30
  else 31

/-- Passes over a date. -/
def dropDate (cs : List Char) : Option (List Char) := do
  let (year, cs) ← fixedDigits 4 cs
  let (month, cs) ← fixedDigits 2 (← expectChar '-' cs)
  let (day, cs) ← fixedDigits 2 (← expectChar '-' cs)
  if 1 ≤ month && month ≤ 12 && 1 ≤ day && day ≤ monthDays year month then some cs else none

/-- Passes over the seconds of a time, which may have decimal places. -/
def dropSeconds (cs : List Char) : Option (List Char) := do
  let (second, cs) ← fixedDigits 2 cs
  -- A minute may end in a leap second.
  if 60 < second then none
  match cs with
  | '.' :: rest =>
    let n := (rest.takeWhile (·.isDigit)).length
    if n == 0 then none else some (rest.drop n)
  | cs => some cs

/-- Passes over a time of day, which may leave out the seconds. -/
def dropTime (cs : List Char) : Option (List Char) := do
  let (hour, cs) ← fixedDigits 2 cs
  let (minute, cs) ← fixedDigits 2 (← expectChar ':' cs)
  if 23 < hour || 59 < minute then none
  match cs with
  | ':' :: rest => dropSeconds rest
  | cs => some cs

/-- Passes over the offset of a time, if there is one. -/
def dropOffset (cs : List Char) : Option (List Char) :=
  match cs with
  | [] => some []
  | c :: rest =>
    if c == 'Z' || c == 'z' then some rest
    else if c == '+' || c == '-' then do
      let (hour, rest) ← fixedDigits 2 rest
      let (minute, rest) ← fixedDigits 2 (← expectChar ':' rest)
      if 23 < hour || 59 < minute then none else some rest
    else none

/-- The characters state a date, a time, or both. -/
def isDatetime (cs : List Char) : Bool :=
  match dropDate cs with
  | none => dropTime cs == some []
  | some [] => true
  | some (c :: rest) =>
    (c == 'T' || c == 't' || c == ' ') && ((dropTime rest).bind dropOffset) == some []

/-! ### Scalars -/

/-- Reads the scalar that a token without quotes states. -/
def readBare (t : Token) : Except Fault Scalar :=
  let cs := t.chars
  let wrong (description : String) : Except Fault Scalar := .error (wrongToken description t)
  if cs == ['t', 'r', 'u', 'e'] then .ok (.boolean true)
  else if cs == ['f', 'a', 'l', 's', 'e'] then .ok (.boolean false)
  else match special? cs with
    | some x => .ok (.float x)
    | none =>
      if isDatetime cs then .ok .datetime
      else if (splitSign cs).2.head?.any (fun c => c.isDigit || c == '.' || c == '_') then
        match misplacedUnderscore? cs with
        | some i => .error (charFault "`_` may only go between digits" (t.start + i))
        | none =>
          let ds := cs.filter (· != '_')
          match integer? ds, decimal? ds with
          | some i, _ => .ok (.integer i)
          | none, some x => .ok (.float x)
          | none, none =>
            -- Digits alone fail only because the number is too large.
            if isWhole (splitSign ds).2 then wrong "integer number overflowed"
            else wrong "invalid mantissa, expected digits"
      else wrong "string values must be quoted, expected literal string"

/-- Reads the scalar that a token states. -/
def readScalar (t : Token) : Except Fault Scalar :=
  match t.kind with
  | .basic | .longBasic | .literal | .longLiteral => (readText t).map .text
  | _ => readBare t

end ReleasePublisher.Toml
