import MixedModules.Number.Double

/-! The shortest decimal that reads back as a given binary number.

A finite number is the nearest of its format for a whole interval around it. The
search tries grids of ever finer powers of ten, and on each the two multiples next
to the number. The first grid with one of them inside the interval gives the
fewest digits; of two inside, the nearer is taken, and the larger when they are
equally near. Everything is exact arithmetic on naturals. -/
namespace MixedModules.Number.Shortest

/-- A positive number as a natural over a natural, together with its distance to
each end of its rounding interval over the same denominator. The ends belong to
the interval when the mantissa is even. -/
structure Interval where
  value : Nat
  below : Nat
  above : Nat
  den : Nat
  closed : Bool
deriving Repr

/-- The rounding interval of `mantissa * 2 ^ exponent`. The gap below a power of
two is half the gap above it, except at the least exponent. -/
def Interval.of (f : Format) (mantissa : Nat) (exponent : Int) : Interval :=
  let unit := Format.upScale (exponent - 2)
  let narrow : Bool := mantissa = Nat.pow 2 f.fractionBits ∧ f.leastExponent < exponent
  { value := 4 * mantissa * unit
    below := (if narrow then 1 else 2) * unit
    above := 2 * unit
    den := Format.upScale (2 - exponent)
    closed := mantissa % 2 = 0 }

/-- Whether `x / (den * k)` lies in the interval, for `k` the extra denominator of
a grid finer than one. -/
def Interval.contains (i : Interval) (k x : Nat) : Bool :=
  let low := (i.value - i.below) * k
  let high := (i.value + i.above) * k
  if i.closed then low ≤ x && x ≤ high else low < x && x < high

/-- The multiple of `10 ^ power` chosen on one grid, if one lies in the interval. -/
def onGrid (i : Interval) (power : Int) : Option Nat :=
  let k := Nat.pow 10 (-power).toNat
  let step := Nat.pow 10 power.toNat * i.den
  let target := i.value * k
  let floor := target / step
  let rest := target % step
  let lower := floor != 0 && i.contains k (floor * step)
  let upper := i.contains k ((floor + 1) * step)
  if lower && (!upper || 2 * rest < step) then some floor
  else if upper then some (floor + 1)
  else none

/-- Tries grids from `10 ^ power` downwards. -/
def search (i : Interval) : Nat → Int → Nat × Int
  | 0, power =>
    (i.value * Nat.pow 10 (-power).toNat / (Nat.pow 10 power.toNat * i.den), power)
  | steps + 1, power =>
    match onGrid i power with
    | some coefficient => (coefficient, power)
    | none => search i steps (power - 1)

/-- A power of ten that is at least the number, and not by much: the binary
logarithm times a fraction on the safe side of `log10 2`. -/
def startPower (i : Interval) : Int :=
  if i.den ≤ i.value then (((i.value / i.den).log2 + 1) * 30103 / 100000 + 1 : Nat)
  else -(((i.den / i.value).log2 * 30102 / 100000 : Nat) : Int)

/-- The digits of a positive number `mantissa * 2 ^ exponent`, as a coefficient and
a power of ten. Seventeen digits tell any two doubles apart, and the search starts
at most a few grids above the leading one. -/
def digits (f : Format) (mantissa : Nat) (exponent : Int) : Nat × Int :=
  let i := Interval.of f mantissa exponent
  search i 24 (startPower i)

end MixedModules.Number.Shortest
