/-!
# The shortest decimal of a floating-point number

A binary floating-point number is `m * 2 ^ q`, and an interval of reals rounds to it. Its decimal
is the point of the coarsest power-of-ten grid that lies in the interval; of two such points, the
nearer one. The comparison is made in natural numbers.

## Main definitions

* `Binary64.ofBits b`: sign, `m` and `q` of the number with the bits `b`
* `Binary64.decimal x`: digits `d` and exponent `k` with `d * 10 ^ k` the shortest decimal of `x`
-/

namespace ReleasePublisher

/-- A finite binary floating-point number `± m * 2 ^ q`. -/
structure Binary64 where
  negative : Bool
  m : Nat
  q : Int
  /-- The neighbour below lies half as far away as the one above. -/
  isBoundary : Bool
  deriving DecidableEq, Repr

namespace Binary64

/-- The number with these bits, which are those of a finite number. -/
def ofBits (b : UInt64) : Binary64 :=
  let n := b.toNat
  let fraction := n % Nat.pow 2 52
  let exponent := n / Nat.pow 2 52 % Nat.pow 2 11
  { negative := Nat.pow 2 63 ≤ n
    m := if exponent == 0 then fraction else Nat.pow 2 52 + fraction
    q := (if exponent == 0 then 1 else exponent : Nat) - 1075
    isBoundary := fraction == 0 && 1 < exponent }

/-- The decimals `d * 10 ^ k` are compared with the interval in units of `2 ^ (q - 2) / scale`:
the interval's lower end, the number itself, its upper end, and the grid's step. -/
def units (x : Binary64) (k : Int) : Nat × Nat × Nat × Nat :=
  let p := x.q - 2
  let up := Nat.pow 2 p.toNat * Nat.pow 10 (-k).toNat
  let step := Nat.pow 2 (-p).toNat * Nat.pow 10 k.toNat
  let low := 4 * x.m - (if x.isBoundary then 1 else 2)
  (low * up, 4 * x.m * up, (4 * x.m + 2) * up, step)

/-- The point of the grid of step `10 ^ k` that reads back as the number, the nearer one where
there are two. -/
def onGrid? (x : Binary64) (k : Int) : Option Nat :=
  let (low, value, high, step) := x.units k
  let below := value / step
  let inside (d : Nat) : Bool :=
    let v := d * step
    -- The ends of the interval round to the number only where its last bit is even.
    0 < d && (if x.m % 2 == 0 then low ≤ v && v ≤ high else low < v && v < high)
  match inside below, inside (below + 1) with
  | true, true =>
    let down := value - below * step
    let up := (below + 1) * step - value
    some (if down < up || (down == up && below % 2 == 0) then below else below + 1)
  | true, false => some below
  | false, true => some (below + 1)
  | false, false => none

/-- Digits `d` and exponent `k` of the shortest decimal `d * 10 ^ k`; zero is `0 * 10 ^ 0`. -/
def decimal (x : Binary64) : Nat × Int :=
  if x.m == 0 then (0, 0)
  else
    -- The grids from the coarsest that a finite number can lie on down to the finest.
    let ks := (List.range 660).map fun (i : Nat) => (310 : Int) - i
    (ks.findSome? fun k => (x.onGrid? k).map (·, k)).getD (0, 0)

end Binary64

end ReleasePublisher
