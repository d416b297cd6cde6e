/-! Binary floating-point formats, as exact arithmetic on bit patterns.

A format is the width of its fraction and of its exponent field. Reading a
pattern gives a datum: a sign with a natural mantissa and a power of two, an
infinity, or no number at all. Writing goes the other way, from any positive
ratio of naturals to the pattern whose value is nearest, a tie going to the even
mantissa. Every conversion and sum of the library is one reading followed by one
writing, so it rounds once. -/
namespace MixedModules.Number

/-- The widths that fix a binary format. The sign takes one further bit. -/
structure Format where
  fractionBits : Nat
  exponentBits : Nat
deriving DecidableEq, Repr

/-- What a bit pattern stands for. A finite datum is `± mantissa * 2 ^ exponent`,
so both zeros are finite and keep their sign. -/
inductive Datum where
  | nan
  | infinite (negative : Bool)
  | finite (negative : Bool) (mantissa : Nat) (exponent : Int)
deriving DecidableEq, Repr

namespace Format

/-- Sixty-four bits: 52 of fraction and 11 of exponent. -/
def double : Format := ⟨52, 11⟩

/-- Thirty-two bits: 23 of fraction and 8 of exponent. -/
def single : Format := ⟨23, 8⟩

/-- The power of two of the smallest positive number. Subnormal numbers and the
smallest normal ones are its multiples. -/
def leastExponent (f : Format) : Int :=
  2 - Nat.pow 2 (f.exponentBits - 1) - f.fractionBits

/-- The exponent field of infinities and of patterns that are no number. -/
def topField (f : Format) : Nat := Nat.pow 2 f.exponentBits - 1

/-- The pattern of positive infinity, which is also the first pattern past the
finite positive numbers. -/
def infinityBits (f : Format) : Nat := f.topField * Nat.pow 2 f.fractionBits

/-- The weight of the sign bit. -/
def signBit (f : Format) : Nat := Nat.pow 2 (f.fractionBits + f.exponentBits)

/-- A pattern that is no number: the top exponent field and the leading fraction
bit. -/
def nanBits (f : Format) : Nat := f.infinityBits + Nat.pow 2 (f.fractionBits - 1)

/-- Reads a pattern. A zero exponent field has no implicit leading bit and shares
the power of two of field one. -/
def read (f : Format) (bits : Nat) : Datum :=
  let negative := bits / f.signBit % 2 == 1
  let field := bits / Nat.pow 2 f.fractionBits % Nat.pow 2 f.exponentBits
  let fraction := bits % Nat.pow 2 f.fractionBits
  if field = f.topField then
    if fraction = 0 then .infinite negative else .nan
  else if field = 0 then
    .finite negative fraction f.leastExponent
  else
    .finite negative (Nat.pow 2 f.fractionBits + fraction) (f.leastExponent + (field - 1 : Nat))

/-- `2 ^ e` as a multiplier, one when `e` is negative. -/
def upScale (e : Int) : Nat := Nat.pow 2 e.toNat

/-- The quotient rounded to the nearest natural, a tie to the even one. -/
def roundedQuotient (num den : Nat) : Nat :=
  let q := num / den
  let rest := num % den
  if 2 * rest < den then q
  else if den < 2 * rest then q + 1
  else q + q % 2

/-- The power of two at which the ratio has at most one bit more than the
fraction, never below the least exponent. -/
def gridExponent (f : Format) (num den : Nat) : Int :=
  let guess : Int := (num.log2 : Int) - (den.log2 : Int) - f.fractionBits - 1
  let fits : Bool := num * upScale (-guess) < den * upScale guess * Nat.pow 2 (f.fractionBits + 1)
  max f.leastExponent (if fits then guess else guess + 1)

/-- The magnitude bits nearest to `num / den`. On the grid `2 ^ e` a rounded
mantissa `m` has bits `(e - least) * 2 ^ fractionBits + m`: a carry out of the
mantissa then moves to the next field by itself, and whatever passes the largest
finite number is infinite. -/
def magnitude (f : Format) (num den : Nat) : Nat :=
  if num = 0 then 0 else
  let e := f.gridExponent num den
  let mantissa := roundedQuotient (num * upScale (-e)) (den * upScale e)
  min f.infinityBits ((e - f.leastExponent).toNat * Nat.pow 2 f.fractionBits + mantissa)

/-- The pattern nearest to `± num / den`, the sign kept also for a zero result. -/
def nearest (f : Format) (negative : Bool) (num den : Nat) : Nat :=
  (if negative then f.signBit else 0) + f.magnitude num den

/-- Writes a datum, rounding a finite one to the format. -/
def write (f : Format) : Datum → Nat
  | .nan => f.nanBits
  | .infinite negative => (if negative then f.signBit else 0) + f.infinityBits
  | .finite negative mantissa exponent =>
    f.nearest negative (mantissa * upScale exponent) (upScale (-exponent))

end Format
end MixedModules.Number
