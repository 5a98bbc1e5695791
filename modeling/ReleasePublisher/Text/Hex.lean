import ReleasePublisher.Text.Utf8

/-!
# Hexadecimal text

Bytes are written with two lower-case digits each; digits are read in either case.

## Main definitions

* `Hex.encode bs`: two digits for each byte
* `Hex.decode? s`: the bytes that the digits stand for
* `Hex.value? c`: the number a digit stands for
-/

namespace ReleasePublisher.Hex

/-- The lower-case digit of a number below sixteen. -/
def lowerDigit (n : Nat) : Char :=
  if n < 10 then Char.ofNat (48 + n) else Char.ofNat (87 + n)

/-- The upper-case digit of a number below sixteen. -/
def upperDigit (n : Nat) : Char :=
  if n < 10 then Char.ofNat (48 + n) else Char.ofNat (55 + n)

/-- The number a digit stands for. -/
def value? (c : Char) : Option Nat :=
  if '0' ≤ c && c ≤ '9' then some (c.toNat - 48)
  else if 'a' ≤ c && c ≤ 'f' then some (c.toNat - 87)
  else if 'A' ≤ c && c ≤ 'F' then some (c.toNat - 55)
  else none

/-- Two digits for each byte. -/
def encodeChars (bs : Bytes) : List Char :=
  bs.flatMap fun b => [lowerDigit (b.toNat / 16), lowerDigit (b.toNat % 16)]

/-- Two digits for each byte. -/
def encode (bs : Bytes) : String :=
  String.ofList (encodeChars bs)

/-- The bytes that pairs of digits stand for. -/
def decodeChars? : List Char → Option Bytes
  | [] => some []
  | [_] => none
  | a :: b :: rest => do
    let hi ← value? a
    let lo ← value? b
    return UInt8.ofNat (hi * 16 + lo) :: (← decodeChars? rest)

/-- The bytes that pairs of digits stand for. -/
def decode? (s : String) : Option Bytes :=
  decodeChars? s.toList

/-- A number in lower-case digits, at least one. -/
def ofNat (n : Nat) : List Char :=
  if _h : n < 16 then [lowerDigit n] else ofNat (n / 16) ++ [lowerDigit (n % 16)]
termination_by n

end ReleasePublisher.Hex
