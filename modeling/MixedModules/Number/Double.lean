import MixedModules.Number.Format

/-! Doubles and singles, held by their bits.

All arithmetic is exact arithmetic on what the bits stand for, rounded once when
the result is written. Two operations matter to the rest of the library: the wrap
of a double to a 32-bit integer, which goes through other doubles, and the
conversions between the two widths. -/
namespace MixedModules.Number

namespace Datum

/-- The signed integer `± mantissa * 2 ^ shift`. -/
def scaled (negative : Bool) (mantissa shift : Nat) : Int :=
  if negative then -(mantissa * Nat.pow 2 shift : Nat) else (mantissa * Nat.pow 2 shift : Nat)

/-- The sum of two data. Infinities of opposite signs have no sum, and an exact
zero is negative only if both summands are. -/
def add : Datum → Datum → Datum
  | .nan, _ | _, .nan => .nan
  | .infinite a, .infinite b => if a == b then .infinite a else .nan
  | .infinite a, .finite .. | .finite .., .infinite a => .infinite a
  | .finite a m e, .finite b n d =>
    let low := min e d
    let sum := scaled a m (e - low).toNat + scaled b n (d - low).toNat
    if sum = 0 then .finite (a && b) 0 low else .finite (sum < 0) sum.natAbs low

/-- The greatest whole number that is not above `mantissa * 2 ^ exponent`. -/
def floor (mantissa : Nat) (exponent : Int) : Nat :=
  mantissa * Format.upScale exponent / Format.upScale (-exponent)

/-- The integer part: the magnitude is cut down to a whole number and the sign stays,
so a negative fraction goes up to the negative zero. -/
def whole : Datum → Datum
  | .finite negative mantissa exponent => .finite negative (floor mantissa exponent) 0
  | d => d

/-- What is left of the first magnitude when the second is taken away as often as it
can be, with the sign of the first. A remainder by zero is no number. -/
def remainder : Datum → Datum → Datum
  | .finite a m e, .finite _ n d =>
    let low := min e d
    let divisor := n * Nat.pow 2 (d - low).toNat
    if divisor = 0 then .nan else .finite a (m * Nat.pow 2 (e - low).toNat % divisor) low
  | .finite a m e, .infinite _ => .finite a m e
  | _, _ => .nan

/-- The datum without its sign. -/
def abs : Datum → Datum
  | .nan => .nan
  | .infinite _ => .infinite false
  | .finite _ mantissa exponent => .finite false mantissa exponent

/-- Whether a datum is below zero. No zero is, whatever its sign. -/
def isBelowZero : Datum → Bool
  | .nan => false
  | .infinite negative => negative
  | .finite negative mantissa _ => negative && mantissa != 0

end Datum

/-- A 64-bit floating-point number. -/
structure Double where
  bits : UInt64
deriving DecidableEq, Repr, Inhabited

/-- A 32-bit floating-point number. -/
structure Single where
  bits : UInt32
deriving DecidableEq, Repr, Inhabited

namespace Double

/-- What the number's bits stand for. -/
def datum (x : Double) : Datum := Format.double.read x.bits.toNat

/-- The nearest double to a datum. -/
def ofDatum (d : Datum) : Double := ⟨UInt64.ofNat (Format.double.write d)⟩

/-- The double nearest to a signed ratio, a tie going to the even mantissa. -/
def ofRatio (negative : Bool) (num den : Nat) : Double :=
  ⟨UInt64.ofNat (Format.double.nearest negative num den)⟩

def ofInt (n : Int) : Double := ofRatio (n < 0) n.natAbs 1

def nan : Double := ofDatum .nan

def zero : Double := ⟨0⟩

def one : Double := ofInt 1

def infinity (negative : Bool) : Double := ofDatum (.infinite negative)

def isNaN (x : Double) : Bool := x.datum == .nan

/-- Sameness of numbers: any two that are no number are the same, and otherwise
the bits decide, so the two zeros differ. -/
def same (x y : Double) : Bool := (x.isNaN && y.isNaN) || x.bits == y.bits

protected def add (x y : Double) : Double := ofDatum (x.datum.add y.datum)

instance : Add Double := ⟨Double.add⟩

def isFinite (x : Double) : Bool :=
  match x.datum with
  | .finite .. => true
  | _ => false

def whole (x : Double) : Double := ofDatum x.datum.whole

protected def abs (x : Double) : Double := ofDatum x.datum.abs

/-- The remainder with the sign of the first number. -/
def remainder (x y : Double) : Double := ofDatum (x.datum.remainder y.datum)

/-- The remainder that is never below zero. -/
def modulo (x y : Double) : Double :=
  let rest := x.remainder y
  if rest.datum.isBelowZero then rest + y.abs else rest

/-- The integer part as an unsigned 32-bit number. What is below or above all of these
goes to the nearest one, and what is no number to zero. -/
def toUInt32 (x : Double) : UInt32 :=
  match x.datum with
  | .nan => 0
  | .infinite negative => if negative then 0 else UInt32.ofNat (UInt32.size - 1)
  | .finite negative mantissa exponent =>
    if negative then 0 else UInt32.ofNat (min (Datum.floor mantissa exponent) (UInt32.size - 1))

/-- The count of 32-bit words. -/
def wordCount : Double := ofInt UInt32.size

/-- The wrap to 32 bits: the integer part modulo `2 ^ 32`, read as a signed number.
Infinities and what is no number wrap to zero. -/
def toInt32 (x : Double) : Int32 :=
  if x.isFinite then (x.whole.modulo wordCount).toUInt32.toInt32 else 0

/-- The nearest single. -/
def toSingle (x : Double) : Single := ⟨UInt32.ofNat (Format.single.write x.datum)⟩

end Double

namespace Single

/-- What the number's bits stand for. -/
def datum (x : Single) : Datum := Format.single.read x.bits.toNat

def zero : Single := ⟨0⟩

/-- The double with the same value. Every single has one. -/
def toDouble (x : Single) : Double := Double.ofDatum x.datum

end Single
end MixedModules.Number
