import MixedModules.Fault
import MixedModules.Number.Decimal
import MixedModules.Text.Blank

/-! Conversion between script values and raw numbers.

A value becomes a number first, and the number is then brought to the wanted type.
64-bit integers are the exception: they come only from big integers and from
booleans, and never pass through a double. -/
namespace MixedModules

/-- The number in a text: nothing but blanks is zero, and what is no numeral is no
number. -/
def textNumber (text : String) : Number.Double :=
  match Text.trim text.toList with
  | [] => .zero
  | trimmed => ((Number.Numeral.read trimmed).map Number.Numeral.toDouble).getD .nan

namespace Value

/-- The value as a number. Only big integers have none; objects are no number. -/
def toNumber : Value → Except TypeFault Number.Double
  | .undefined => .ok .nan
  | .null => .ok .zero
  | .bool b => .ok (if b then .one else .zero)
  | .number n => .ok n
  | .string s => .ok (textNumber s)
  | .bigint _ => .error .bigintToNumber
  | .global _ | .memory _ | .table _ | .function _ => .ok .nan

/-- The value as a raw number of type `t`. -/
def toRaw (t : NumType) (v : Value) : Except TypeFault Raw :=
  match t with
  | .i32 => v.toNumber.map fun n => .i32 n.toInt32
  | .f32 => v.toNumber.map fun n => .f32 n.toSingle
  | .f64 => v.toNumber.map .f64
  | .i64 =>
    match v with
    | .bigint n => .ok (.i64 n)
    | .bool b => .ok (.i64 (if b then 1 else 0))
    | other => .error (.toBigint other.typeName)

/-- A raw number as a script module sees it. -/
def ofRaw : Raw → Value
  | .i32 n => .number (.ofInt n.toInt)
  | .i64 n => .bigint n
  | .f32 n => .number n.toDouble
  | .f64 n => .number n

end Value
end MixedModules
