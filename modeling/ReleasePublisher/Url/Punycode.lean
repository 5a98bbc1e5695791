/-!
# Punycode

A label of a host name is written in ASCII: its ASCII characters, a hyphen, and the places and
numbers of its other characters as digits in base 36, in increasing order of the characters. The
weights of the digits adapt to the sizes of the steps.

## Main definitions

* `Punycode.encode cs`: the ASCII form of a label
* `Punycode.decode? cs`: the label that an ASCII form stands for
-/

namespace ReleasePublisher.Punycode

/-- The digit of a number below 36. -/
def digit (n : Nat) : Char :=
  if n < 26 then Char.ofNat (0x61 + n) else Char.ofNat (0x30 + (n - 26))

/-- The number a digit stands for. -/
def value? (c : Char) : Option Nat :=
  if 'a' ≤ c && c ≤ 'z' then some (c.toNat - 0x61)
  else if 'A' ≤ c && c ≤ 'Z' then some (c.toNat - 0x41)
  else if '0' ≤ c && c ≤ '9' then some (c.toNat - 0x30 + 26)
  else none

/-- The threshold of the digit with weight `k`. -/
def threshold (k bias : Nat) : Nat :=
  if k ≤ bias then 1 else min 26 (k - bias)

/-- Divides by 35 until at most 455 is left, counting 36 for each division. -/
def shrink (delta k : Nat) : Nat × Nat :=
  if 455 < delta then shrink (delta / 35) (k + 36) else (delta, k)
termination_by delta

/-- The bias after a step of size `delta` that leads to a label of `count` characters. -/
def adapt (delta count : Nat) (isFirst : Bool) : Nat :=
  let delta := if isFirst then delta / 700 else delta / 2
  let (delta, k) := shrink (delta + delta / count) 0
  k + 36 * delta / (delta + 38)

/-- The digits of a step. Each digit makes the rest smaller, so the step itself is fuel enough. -/
def stepDigits : Nat → Nat → Nat → Nat → List Char
  | 0, q, _, _ => [digit q]
  | fuel + 1, q, k, bias =>
    let t := threshold k bias
    if q < t then [digit q]
    else digit (t + (q - t) % (36 - t)) :: stepDigits fuel ((q - t) / (36 - t)) (k + 36) bias

/-- The state of writing: the character reached, the steps since the last written one, the bias,
how many characters are written, and the digits. -/
structure Writing where
  delta : Nat
  bias : Nat
  count : Nat
  digits : List Char

/-- Goes over a label for the characters with the number `n`. `basic` is the number of ASCII
characters. -/
def writeChars (n basic : Nat) : List Char → Writing → Writing
  | [], w => w
  | c :: rest, w =>
    if c.toNat < n then writeChars n basic rest { w with delta := w.delta + 1 }
    else if c.toNat == n then
      writeChars n basic rest
        { delta := 0
          bias := adapt w.delta (w.count + 1) (w.count == basic)
          count := w.count + 1
          digits := w.digits ++ stepDigits w.delta w.delta 36 w.bias }
    else writeChars n basic rest w

/-- Writes the characters with the given numbers, from the number `n` on. -/
def writeNumbers (label : List Char) (basic : Nat) : Nat → List Nat → Writing → List Char
  | _, [], w => w.digits
  | n, m :: ms, w =>
    let w := writeChars m basic label { w with delta := w.delta + (m - n) * (w.count + 1) }
    writeNumbers label basic (m + 1) ms { w with delta := w.delta + 1 }

/-- The ASCII form of a label. -/
def encode (label : List Char) : List Char :=
  let plain := label.filter (·.toNat < 0x80)
  let numbers := ((label.map Char.toNat).filter (0x80 ≤ ·)).mergeSort.eraseDups
  let start := if plain.isEmpty then [] else plain ++ ['-']
  writeNumbers label plain.length 0x80 numbers
    { delta := 0, bias := 72, count := plain.length, digits := start }

/-- Reads the digits of a step: its size and the rest. -/
def readStep (bias : Nat) : Nat → Nat → Nat → List Char → Option (Nat × List Char)
  | _, _, _, [] => none
  | i, w, k, c :: rest => do
    let d ← value? c
    let t := threshold k bias
    let i := i + d * w
    if d < t then some (i, rest) else readStep bias i (w * (36 - t)) (k + 36) rest

/-- Reads steps and puts their characters into the label. Each step takes a digit, so the number of
digits is fuel enough. -/
def readSteps : Nat → Nat → Nat → Nat → List Char → List Char → Option (List Char)
  | _, _, _, _, out, [] => some out
  | 0, _, _, _, _, _ => none
  | fuel + 1, n, i, bias, out, ds => do
    let (j, rest) ← readStep bias i 1 36 ds
    let count := out.length + 1
    let n := n + j / count
    let at' := j % count
    -- Not the number of a character.
    if 0x10FFFF < n || (0xD800 ≤ n && n ≤ 0xDFFF) then none
    readSteps fuel n (at' + 1) (adapt (j - i) count (i == 0))
      (out.take at' ++ Char.ofNat n :: out.drop at') rest

/-- The label that an ASCII form stands for. -/
def decode? (cs : List Char) : Option (List Char) :=
  let digits := (cs.reverse.takeWhile (· != '-')).reverse
  let plain := cs.take (cs.length - digits.length - 1)
  if cs.all (·.toNat < 0x80) then readSteps digits.length 0x80 0 72 plain digits else none

end ReleasePublisher.Punycode
