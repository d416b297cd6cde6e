import MixedModules.Number.Shortest

/-! How a binary number is written as text.

Both layouts print the shortest digits that read back. The plain layout is always
positional and prints a whole number without a point. The exact layout keeps
`.0` on whole numbers, so that a float never looks like an integer, and writes
very large and very small numbers with a power of ten. -/
namespace MixedModules.Number

/-- The choices that make one layout. A number whose leading digit has a power of
ten in `positionalFrom ..< positionalTo` is written positionally; no bounds mean
always. -/
structure Layout where
  positionalRange : Option (Int × Int)
  wholeSuffix : List Char

namespace Layout

/-- Always positional, and nothing after a whole number. -/
def plain : Layout := ⟨none, []⟩

/-- Positional from `1e-4` to below `1e16`, with `.0` after a whole number. -/
def exact : Layout := ⟨some (-4, 16), ['.', '0']⟩

/-- Digits of `coefficient * 10 ^ power` written around a decimal point. -/
def positional (l : Layout) (ds : List Char) (power : Int) : List Char :=
  if 0 ≤ power then ds ++ List.replicate power.toNat '0' ++ l.wholeSuffix
  else
    let places := (-power).toNat
    let padded := List.replicate (places + 1 - ds.length) '0' ++ ds
    padded.take (padded.length - places) ++ '.' :: padded.drop (padded.length - places)

/-- One leading digit, the others after a point, and the power of the leading one. -/
def scientific (ds : List Char) (leading : Int) : List Char :=
  let fraction := match ds.drop 1 with
    | [] => []
    | rest => '.' :: rest
  ds.take 1 ++ fraction ++ 'e' :: (toString leading).toList

/-- The text of what a pattern of format `f` stands for. -/
def write (l : Layout) (f : Format) : Datum → String
  | .nan => "NaN"
  | .infinite negative => if negative then "-inf" else "inf"
  | .finite negative mantissa exponent =>
    let sign := if negative then ['-'] else []
    let body :=
      if mantissa = 0 then l.positional ['0'] 0 else
      let (coefficient, power) := Shortest.digits f mantissa exponent
      let ds := Nat.toDigits 10 coefficient
      let leading := power + ds.length - 1
      match l.positionalRange with
      | none => l.positional ds power
      | some (low, high) =>
        if low ≤ leading ∧ leading < high then l.positional ds power
        else scientific ds leading
    String.ofList (sign ++ body)

end Layout

/-- The number in the plain layout. -/
def Double.plainText (x : Double) : String := Layout.plain.write .double x.datum

/-- The number in the exact layout. -/
def Double.exactText (x : Double) : String := Layout.exact.write .double x.datum

/-- The number in the exact layout. -/
def Single.exactText (x : Single) : String := Layout.exact.write .single x.datum

end MixedModules.Number
