import ReleasePublisher.Json.Value
import ReleasePublisher.Json.Fault
import ReleasePublisher.Text.Hex

/-!
# The pieces of a JSON text

Each reader takes the rest of the input and gives what it read together with the new rest.

## Main definitions

* `Json.skipBlank`: the rest after blanks
* `Json.word w`: reads the remaining bytes of a word
* `Json.textBody`: reads a string from behind its opening quote
* `Json.numeral positive`: reads a number from behind its sign
-/

namespace ReleasePublisher.Json

/-- What a reader gives: a value and the rest of the input, or a fault. -/
abbrev Result (α : Type) := Except Fault (α × Bytes)

/-- Blanks between the pieces: space, tab, line feed and carriage return. -/
def isSpace (b : UInt8) : Bool :=
  b == 0x20 || b == 0x09 || b == 0x0A || b == 0x0D

/-- The rest of the input after blanks. -/
def skipBlank (s : Bytes) : Bytes :=
  s.dropWhile isSpace

/-- A decimal digit. -/
def isDigit (b : UInt8) : Bool :=
  0x30 ≤ b && b ≤ 0x39

/-- Reads the bytes of a word. -/
def word : Bytes → Bytes → Except Fault Bytes
  | [], rest => .ok rest
  | _ :: _, [] => .error ⟨.endOfValue, 0⟩
  | w :: ws, b :: rest => if b == w then word ws rest else .error (.before .expectedWord rest)

/-! ### Strings -/

/-- The character that a one-letter escape stands for. -/
def simpleEscape? (b : UInt8) : Option UInt8 :=
  if b == 0x22 || b == 0x5C || b == 0x2F then some b
  else if b == 0x62 then some 0x08
  else if b == 0x66 then some 0x0C
  else if b == 0x6E then some 0x0A
  else if b == 0x72 then some 0x0D
  else if b == 0x74 then some 0x09
  else none

/-- The number that the first four bytes state in hexadecimal digits. -/
def fourDigits : Bytes → Except Fault Nat
  | a :: b :: c :: d :: rest =>
    match [a, b, c, d].mapM fun x => Hex.value? (Char.ofNat x.toNat) with
    | some ds => .ok (ds.foldl (fun n d => n * 16 + d) 0)
    | none => .error (.before .invalidEscape rest)
  | _ => .error ⟨.endOfString, 0⟩

/-- Reads the digits of a `\u` escape, and those of the second half of a surrogate pair. The answer
is the character's bytes and how many bytes of the input were read. -/
def unicodeEscape (rest : Bytes) : Except Fault (Bytes × Nat) := do
  let n ← fourDigits rest
  let after := rest.drop 4
  if 0xDC00 ≤ n && n ≤ 0xDFFF then .error (.before .loneSurrogate after)
  -- A number outside both halves of the surrogates is a character by itself.
  else if n < 0xD800 || 0xDBFF < n then return (Utf8.encodeChar (Char.ofNat n), 4)
  else match after with
    | [] => .error ⟨.endOfString, 0⟩
    | b :: after =>
      if b != 0x5C then .error (.before .unexpectedEndOfEscape after)
      else match after with
        | [] => .error ⟨.endOfString, 0⟩
        | b :: after =>
          if b != 0x75 then .error (.before .unexpectedEndOfEscape after)
          else do
            let m ← fourDigits after
            if m < 0xDC00 || 0xDFFF < m then .error (.before .loneSurrogate (after.drop 4))
            else return (Utf8.encodeChar
              (Char.ofNat (0x10000 + (n - 0xD800) * 0x400 + (m - 0xDC00))), 10)

/-- Reads an escape from behind its backslash. The answer is the bytes it stands for and how many
bytes of the input were read. -/
def escape : Bytes → Except Fault (Bytes × Nat)
  | [] => .error ⟨.endOfString, 0⟩
  | b :: rest =>
    match simpleEscape? b with
    | some c => .ok ([c], 1)
    | none =>
      if b == 0x75 then (unicodeEscape rest).map fun (bs, n) => (bs, n + 1)
      else .error (.before .invalidEscape rest)

/-- Reads the bytes of a string from behind its opening quote to behind its closing quote. -/
def textBytes : Bytes → Result Bytes
  | [] => .error ⟨.endOfString, 0⟩
  | b :: rest =>
    if b == 0x22 then .ok ([], rest)
    else if b == 0x5C then
      match escape rest with
      | .error f => .error f
      | .ok (bs, n) => (textBytes (rest.drop n)).map fun (more, rest) => (bs ++ more, rest)
    else if b < 0x20 then .error (.before .controlCharacter rest)
    else (textBytes rest).map fun (more, rest) => (b :: more, rest)
termination_by s => s.length
decreasing_by all_goals (simp only [List.length_drop, List.length_cons]; omega)

/-- Reads a string from behind its opening quote. -/
def textBody (s : Bytes) : Result String :=
  match textBytes s with
  | .error f => .error f
  | .ok (bs, rest) =>
    match Utf8.decode? bs with
    | some t => .ok (t, rest)
    | none => .error (.before .invalidCodePoint rest)

/-! ### Numbers -/

/-- The binary floating-point number nearest to `10 ^ k`, for `k` at most 308. -/
def powerOfTen (k : Nat) : Float :=
  Float.ofScientific 1 false k

/-- `significand * 10 ^ exponent` as a binary floating-point number, computed by one product or
quotient with a power of ten where the exponent's size is at most 308, else by repeated division
by the largest power. There is none where the number is too large. -/
def scale : Nat → Float → Int → Option Float
  | 0, _, _ => none
  | fuel + 1, f, exponent =>
    if exponent.natAbs ≤ 308 then
      if 0 ≤ exponent then
        let g := f * powerOfTen exponent.natAbs
        if g.isInf then none else some g
      else some (f / powerOfTen exponent.natAbs)
    -- Zero stays zero, however large the exponent.
    else if f == 0.0 then some f
    else if 0 ≤ exponent then none
    else scale fuel (f / powerOfTen 308) (exponent + 308)

/-- The number with this sign, significand and decimal exponent. A significand of 64 bits becomes
zero within three divisions by the largest power of ten, so six steps are enough. -/
def real (positive : Bool) (significand : Nat) (exponent : Int) (rest : Bytes) :
    Result JsonNumber :=
  match scale 6 (UInt64.ofNat significand).toFloat exponent with
  | some f => .ok (.real (if positive then f else -f).toBits, rest)
  | none => .error (.before .numberOutOfRange rest)

/-- The largest significand: further digits do not enter it. -/
def maxSignificand : Nat := Nat.pow 2 64 - 1

/-- Reads digits into a significand as long as it stays within 64 bits. The answer is the
significand, how many digits entered it, and the rest. -/
def digitsInto (significand count : Nat) : Bytes → Nat × Nat × Bytes
  | [] => (significand, count, [])
  | b :: rest =>
    if isDigit b then
      let next := significand * 10 + (b.toNat - 48)
      if next ≤ maxSignificand then digitsInto next (count + 1) rest
      else (significand, count, b :: rest)
    else (significand, count, b :: rest)

/-- The largest size of an exponent that is read exactly. -/
def maxExponent : Nat := Nat.pow 2 31 - 1

/-- Reads digits into an exponent. There is none where the exponent becomes too large; the rest is
then that behind the digit which did it. -/
def exponentDigits (e : Nat) : Bytes → Option Nat × Bytes
  | [] => (some e, [])
  | b :: rest =>
    if isDigit b then
      let next := e * 10 + (b.toNat - 48)
      if next ≤ maxExponent then exponentDigits next rest else (none, rest)
    else (some e, b :: rest)

/-- The sign of an exponent and the rest behind it. -/
def exponentSign : Bytes → Bool × Bytes
  | [] => (true, [])
  | b :: rest =>
    if b == 0x2B then (true, rest) else if b == 0x2D then (false, rest) else (true, b :: rest)

/-- Reads an exponent from behind its letter, for a number with this sign and significand whose
decimal exponent is `start` so far. Too large an exponent gives zero, or no number at all. -/
def exponentPart (positive : Bool) (significand : Nat) (start : Int) (s : Bytes) :
    Result JsonNumber :=
  let (up, s) := exponentSign s
  match s with
  | [] => .error ⟨.endOfValue, 0⟩
  | b :: rest =>
    if !isDigit b then .error (.before .invalidNumber rest)
    else match exponentDigits 0 s with
      | (some e, rest) => real positive significand (if up then start + e else start - e) rest
      | (none, rest) =>
        if significand != 0 && up then .error (.before .numberOutOfRange rest)
        else .ok (.real (if positive then (0.0 : Float) else -0.0).toBits, rest.dropWhile isDigit)

/-- The rest starts with the letter of an exponent. -/
def startsExponent : Bytes → Bool
  | [] => false
  | b :: _ => b == 0x65 || b == 0x45

/-- The rest starts with a digit. -/
def startsDigit : Bytes → Bool
  | [] => false
  | b :: _ => isDigit b

/-- Reads what may follow the digits of a number that is not an integer. -/
def exponentOrEnd (positive : Bool) (significand : Nat) (exponent : Int) (s : Bytes) :
    Result JsonNumber :=
  if startsExponent s then exponentPart positive significand exponent (s.drop 1)
  else real positive significand exponent s

/-- Reads decimal places from behind the point, for a number with this sign and significand whose
decimal exponent is `start` so far. -/
def decimalPart (positive : Bool) (significand : Nat) (start : Int) (s : Bytes) :
    Result JsonNumber :=
  let (significand, count, rest) := digitsInto significand 0 s
  -- Places beyond the significand are passed over; they do not change the number.
  if startsDigit rest then
    exponentOrEnd positive significand (start - count) (rest.dropWhile isDigit)
  else if count == 0 then
    .error (.at (if rest.isEmpty then .endOfValue else .invalidNumber) rest)
  else exponentOrEnd positive significand (start - count) rest

/-- The integer with this sign and size: a negative one below `-2 ^ 63`, and minus zero, become
floating-point numbers. -/
def integer (positive : Bool) (n : Nat) : JsonNumber :=
  if positive then .natural n
  else if n == 0 || Nat.pow 2 63 < n then .real (-(UInt64.ofNat n).toFloat).toBits
  else .negative n

/-- Reads a number from behind its sign. An integer that does not fit 64 bits becomes a
floating-point number. -/
def numeral (positive : Bool) : Bytes → Result JsonNumber
  | [] => .error ⟨.endOfValue, 0⟩
  | b :: rest =>
    if !isDigit b then .error (.before .invalidNumber rest)
    else if b == 0x30 && startsDigit rest then .error (.at .invalidNumber rest)
    else
      -- Digits beyond the significand only raise the exponent.
      let (significand, _, after) := digitsInto (b.toNat - 48) 0 rest
      let exponent : Int := (after.takeWhile isDigit).length
      let end' := after.dropWhile isDigit
      match end' with
      | [] => if exponent == 0 then .ok (integer positive significand, [])
              else real positive significand exponent []
      | c :: more =>
        if c == 0x2E then decimalPart positive significand exponent more
        else if startsExponent end' then exponentPart positive significand exponent more
        else if exponent == 0 then .ok (integer positive significand, end')
        else real positive significand exponent end'

end ReleasePublisher.Json
