import ReleasePublisher.Decimal.Shortest

/-!
# The text of a floating-point number

A number is written with the digits of its shortest decimal: positionally, with at least one
decimal place, where its leading digit stands at a power of ten from `-5` to `15`, else with an
exponent that has a sign and at least two digits.

## Main definitions

* `Json.realText bits`: the text of the number with these bits
-/

namespace ReleasePublisher.Json

/-- The text of the decimal `d * 10 ^ k`. -/
def decimalText (d : Nat) (k : Int) : List Char :=
  let ds := Nat.toDigits 10 d
  let leading : Int := ds.length + k - 1
  if d == 0 then ['0', '.', '0']
  else if 0 ≤ k && leading ≤ 15 then ds ++ List.replicate k.toNat '0' ++ ['.', '0']
  else if 0 ≤ leading && leading ≤ 15 then
    let whole := (leading + 1).toNat
    ds.take whole ++ '.' :: ds.drop whole
  else if -5 ≤ leading && leading < 0 then
    '0' :: '.' :: List.replicate (-leading - 1).toNat '0' ++ ds
  else
    let fraction := if ds.length == 1 then [] else '.' :: ds.drop 1
    let e := Nat.toDigits 10 leading.natAbs
    ds.take 1 ++ fraction ++ 'e' :: (if 0 ≤ leading then '+' else '-')
      :: (if e.length < 2 then '0' :: e else e)

/-- The text of the number with these bits. -/
def realText (bits : UInt64) : String :=
  let x := Binary64.ofBits bits
  let (d, k) := x.decimal
  String.ofList ((if x.negative then ['-'] else []) ++ decimalText d k)

end ReleasePublisher.Json
