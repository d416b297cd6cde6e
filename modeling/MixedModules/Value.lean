import MixedModules.Signature
import MixedModules.Number.Layout

/-! Values of script modules and raw numbers of binary ones.

A value is a primitive or a handle of a shared object: a global, a memory, a
table or a function. A handle is a place in the store, so passing it on never
copies the object, and two handles are the same object exactly when they are
equal. -/
namespace MixedModules

/-- A number of a binary module. -/
inductive Raw where
  | i32 (value : Int32)
  | i64 (value : Int64)
  | f32 (value : Number.Single)
  | f64 (value : Number.Double)
deriving DecidableEq, Repr, Inhabited

namespace Raw

def type : Raw → NumType
  | .i32 _ => .i32
  | .i64 _ => .i64
  | .f32 _ => .f32
  | .f64 _ => .f64

def zero : NumType → Raw
  | .i32 => .i32 0
  | .i64 => .i64 0
  | .f32 => .f32 .zero
  | .f64 => .f64 .zero

/-- The number under the name of its type, floats always with a point or a power. -/
def detail : Raw → String
  | .i32 v => s!"I32({toString v.toInt})"
  | .i64 v => s!"I64({toString v.toInt})"
  | .f32 v => s!"F32({v.exactText})"
  | .f64 v => s!"F64({v.exactText})"

end Raw

/-- The place of a global in the store. -/
structure GlobalId where
  index : Nat
deriving DecidableEq, Repr, Inhabited

/-- The place of a memory in the store. -/
structure MemoryId where
  index : Nat
deriving DecidableEq, Repr, Inhabited

/-- The place of a table in the store. -/
structure TableId where
  index : Nat
deriving DecidableEq, Repr, Inhabited

/-- The place of a function in the store. -/
structure FunctionId where
  index : Nat
deriving DecidableEq, Repr, Inhabited

/-- A value as a script module sees it. -/
inductive Value where
  | undefined
  | null
  | bool (b : Bool)
  | number (n : Number.Double)
  | bigint (n : Int64)
  | string (s : String)
  | global (g : GlobalId)
  | memory (m : MemoryId)
  | table (t : TableId)
  | function (f : FunctionId)
deriving DecidableEq, Repr, Inhabited

namespace Value

/-- The name of the value's sort in messages. -/
def typeName : Value → String
  | .undefined => "undefined"
  | .null => "null"
  | .bool _ => "boolean"
  | .number _ => "number"
  | .bigint _ => "bigint"
  | .string _ => "string"
  | .global _ => "global object"
  | .memory _ => "memory object"
  | .table _ => "table object"
  | .function _ => "function"

/-- Sameness: of numbers as in `Double.same`, of everything else equality. For
handles that is identity of the object. -/
def same : Value → Value → Bool
  | .number a, .number b => a.same b
  | a, b => a == b

def number? : Value → Option Number.Double
  | .number n => some n
  | _ => none

def global? : Value → Option GlobalId
  | .global g => some g
  | _ => none

def memory? : Value → Option MemoryId
  | .memory m => some m
  | _ => none

def table? : Value → Option TableId
  | .table t => some t
  | _ => none

def function? : Value → Option FunctionId
  | .function f => some f
  | _ => none

end Value
end MixedModules
