import MixedModules.Number.Double

/-! Reading a decimal numeral to the nearest double.

A numeral is an optional sign followed by digits with at most one point, at least
one digit on either side of it, and an optional power of ten. The words for
infinity and for no number are numerals too, in any case of their letters. There
are no separators and no other bases.

Digits may be of any number, and all of them count. Only the power of ten is read
with a cap, so its digits past the cap say nothing. -/
namespace MixedModules.Number

/-- The number `± coefficient * 10 ^ exponent`. -/
structure Decimal where
  negative : Bool
  coefficient : Nat
  exponent : Int
deriving DecidableEq, Repr

/-- What a numeral denotes. -/
inductive Numeral where
  | decimal (value : Decimal)
  | infinity (negative : Bool)
  | nan
deriving DecidableEq, Repr

/-! ## Rows of digits -/

def digitValue (c : Char) : Nat := c.toNat - '0'.toNat

/-- The value of a row of digits read from left to right after `start`. -/
def rowValue (start : Nat) (digits : List Char) : Nat :=
  digits.foldl (fun value c => 10 * value + digitValue c) start

/-- The value of a row of digits, cut in halves `depth` times. The depth changes the
work and not the value. -/
def splitValue : Nat → List Char → Nat
  | 0, digits => rowValue 0 digits
  | depth + 1, digits =>
    let low := digits.length / 2
    let high := digits.length - low
    splitValue depth (digits.take high) * Nat.pow 10 low + splitValue depth (digits.drop high)

/-- The value of a row of digits. A long row is halved down to pieces of about a
hundred digits, so that it costs few products of large numbers. -/
def digitsValue (digits : List Char) : Nat :=
  splitValue (digits.length / 64 + 1).log2 digits

/-- What stands before a row counts ten times for each of its digits. -/
theorem rowValue_start (start : Nat) (digits : List Char) :
    rowValue start digits = start * Nat.pow 10 digits.length + rowValue 0 digits := by
  induction digits generalizing start with
  | nil => simp [rowValue]
  | cons c rest ih =>
    have read (s : Nat) : rowValue s (c :: rest) = rowValue (10 * s + digitValue c) rest := rfl
    have scale : Nat.pow 10 (rest.length + 1) = Nat.pow 10 rest.length * 10 := rfl
    rw [read, read, ih, ih (10 * 0 + digitValue c), List.length_cons, scale]
    grind

theorem le_rowValue (start : Nat) (digits : List Char) : start ≤ rowValue start digits := by
  rw [rowValue_start]
  exact Nat.le_trans (Nat.le_mul_of_pos_right start (Nat.pow_pos (by decide)))
    (Nat.le_add_right ..)

theorem rowValue_append (start : Nat) (left right : List Char) :
    rowValue start (left ++ right) = rowValue (rowValue start left) right := by
  simp [rowValue]

theorem splitValue_eq (depth : Nat) (digits : List Char) :
    splitValue depth digits = rowValue 0 digits := by
  induction depth generalizing digits with
  | zero => rfl
  | succ depth ih =>
    have joined : digits.take (digits.length - digits.length / 2) ++
        digits.drop (digits.length - digits.length / 2) = digits := List.take_append_drop ..
    have length : (digits.drop (digits.length - digits.length / 2)).length =
        digits.length / 2 := by
      rw [List.length_drop]
      omega
    rw [splitValue, ih, ih]
    conv => rhs; rw [← joined, rowValue_append, rowValue_start, length]

/-- Halving long rows is the same as reading them digit by digit. -/
theorem digitsValue_eq (digits : List Char) : digitsValue digits = rowValue 0 digits :=
  splitValue_eq _ digits

/-- An optional sign, then the rest. -/
def takeSign : List Char → Bool × List Char
  | '-' :: rest => (true, rest)
  | '+' :: rest => (false, rest)
  | cs => (false, cs)

namespace Decimal

/-- The nearest double. -/
def toDouble (d : Decimal) : Double :=
  .ofRatio d.negative (d.coefficient * Nat.pow 10 d.exponent.toNat)
    (Nat.pow 10 (-d.exponent).toNat)

/-- A power of ten that has reached this bound takes no further digits. -/
def powerCap : Nat := 65536

/-- The size of a power of ten, read from left to right after `start`. -/
def cappedValue (start : Nat) (digits : List Char) : Nat :=
  digits.foldl (fun value c => if value < powerCap then 10 * value + digitValue c else value)
    start

/-- A power of ten below ten times the cap is what its digits say. -/
theorem cappedValue_eq (start : Nat) (digits : List Char)
    (small : rowValue start digits < 10 * powerCap) :
    cappedValue start digits = rowValue start digits := by
  induction digits generalizing start with
  | nil => rfl
  | cons c rest ih =>
    have read : rowValue start (c :: rest) = rowValue (10 * start + digitValue c) rest := rfl
    have below : start < powerCap := by
      have grows := le_rowValue (10 * start + digitValue c) rest
      omega
    have kept : cappedValue start (c :: rest) =
        cappedValue (10 * start + digitValue c) rest := by
      simp [cappedValue, below]
    rw [kept, read, ih _ (read ▸ small)]

/-- The power of ten at the end of a numeral, zero if there is none. -/
def readPower : List Char → Option Int
  | [] => some 0
  | c :: rest =>
    if c = 'e' ∨ c = 'E' then
      let (negative, digits) := takeSign rest
      if digits ≠ [] ∧ digits.all Char.isDigit then
        let size : Int := cappedValue 0 digits
        some (if negative then -size else size)
      else none
    else none

/-- The unsigned part of a decimal numeral. -/
def readUnsigned (negative : Bool) (cs : List Char) : Option Decimal :=
  let whole := cs.takeWhile Char.isDigit
  let (fraction, rest) := match cs.dropWhile Char.isDigit with
    | '.' :: rest => (rest.takeWhile Char.isDigit, rest.dropWhile Char.isDigit)
    | rest => ([], rest)
  if whole = [] ∧ fraction = [] then none else
  (readPower rest).map fun power =>
    ⟨negative, digitsValue (whole ++ fraction), power - fraction.length⟩

end Decimal

namespace Numeral

/-- Reads a whole text as a numeral. -/
def read (cs : List Char) : Option Numeral :=
  let (negative, rest) := takeSign cs
  let word := String.ofList (rest.map Char.toLower)
  if word = "inf" ∨ word = "infinity" then some (.infinity negative)
  else if word = "nan" then some .nan
  else (Decimal.readUnsigned negative rest).map .decimal

/-- The double nearest to what the numeral denotes. -/
def toDouble : Numeral → Double
  | .decimal value => value.toDouble
  | .infinity negative => .infinity negative
  | .nan => .nan

end Numeral
end MixedModules.Number
