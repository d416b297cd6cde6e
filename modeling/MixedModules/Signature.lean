import MixedModules.Text.Quoted

/-! The static types of binary modules.

Numbers have one of four types. A global adds whether it may change, a memory or
table has limits on its size, and a function lists what it takes and gives. A
declared type is one of these, or none for a name of a script module. -/
namespace MixedModules

/-- The types of raw numbers. -/
inductive NumType where
  | i32
  | i64
  | f32
  | f64
deriving DecidableEq, Repr, Inhabited

def NumType.text : NumType → String
  | .i32 => "i32"
  | .i64 => "i64"
  | .f32 => "f32"
  | .f64 => "f64"

/-- The constructor name, for detailed texts of types and numbers. -/
def NumType.detail : NumType → String
  | .i32 => "I32"
  | .i64 => "I64"
  | .f32 => "F32"
  | .f64 => "F64"

/-- The type of a global. -/
structure GlobalType where
  value : NumType
  isMutable : Bool
deriving DecidableEq, Repr, Inhabited

def GlobalType.text (t : GlobalType) : String :=
  if t.isMutable then "mut " ++ t.value.text else t.value.text

/-- Bounds on the size of a memory, in pages, or of a table, in elements. -/
structure Limits where
  min : Nat
  max : Option Nat
deriving DecidableEq, Repr, Inhabited

namespace Limits

/-- A maximum, where there is one, is not below the minimum. -/
def isValid (l : Limits) : Bool :=
  match l.max with
  | none => true
  | some max => l.min ≤ max

/-- Provided limits satisfy required ones when they promise at least as much now
and, where growth is bounded, no more later. -/
def satisfies (provided required : Limits) : Bool :=
  required.min ≤ provided.min &&
    match required.max, provided.max with
    | none, _ => true
    | some _, none => false
    | some most, some max => max ≤ most

def text (l : Limits) : String :=
  match l.max with
  | none => s!"\x7bmin {l.min}\x7d"
  | some max => s!"\x7bmin {l.min}, max {max}\x7d"

end Limits

/-- The two kinds of object that have a size. -/
inductive ResourceKind where
  | memory
  | table
deriving DecidableEq, Repr

def ResourceKind.text : ResourceKind → String
  | .memory => "memory"
  | .table => "table"

/-- The signature of a function over raw numbers. -/
structure FuncType where
  params : List NumType
  results : List NumType
deriving DecidableEq, Repr, Inhabited

def FuncType.text (t : FuncType) : String :=
  let list (types : List NumType) : String :=
    "(" ++ ", ".intercalate (types.map NumType.text) ++ ")"
  s!"{list t.params} -> {list t.results}"

/-- What an import or an export binds. -/
inductive BindingKind where
  | value
  | global
  | memory
  | table
  | function
deriving DecidableEq, Repr, Inhabited

def BindingKind.text : BindingKind → String
  | .value => "value"
  | .global => "global"
  | .memory => "memory"
  | .table => "table"
  | .function => "function"

/-- The declared type of an import or an export. Names of script modules have none. -/
inductive TypeSig where
  | none
  | numeric (type : GlobalType)
  | resource (kind : ResourceKind) (limits : Limits)
  | function (type : FuncType)
deriving DecidableEq, Repr, Inhabited

namespace TypeSig

/-- The kind of binding that a type describes. -/
def bindingKind : TypeSig → BindingKind
  | .none => .value
  | .numeric _ => .global
  | .resource .memory _ => .memory
  | .resource .table _ => .table
  | .function _ => .function

/-- The type with all its parts spelt out. -/
def detail : TypeSig → String
  | .none => "None"
  | .numeric t =>
    s!"Numeric(GlobalType \x7b value: {t.value.detail}, mutable: {toString t.isMutable} \x7d)"
  | .resource kind limits =>
    let name := match kind with
      | .memory => "Memory"
      | .table => "Table"
    let max := match limits.max with
      | .none => "None"
      | .some max => s!"Some({max})"
    s!"Resource({name}, Limits \x7b min: {limits.min}, max: {max} \x7d)"
  | .function t =>
    let list (types : List NumType) : String :=
      "[" ++ ", ".intercalate (types.map NumType.detail) ++ "]"
    s!"Function(FuncType \x7b params: {list t.params}, results: {list t.results} \x7d)"

end TypeSig

/-- The two kinds of module. -/
inductive ModuleKind where
  | script
  | binary
deriving DecidableEq, Repr, Inhabited

def ModuleKind.text : ModuleKind → String
  | .script => "script"
  | .binary => "binary"

end MixedModules
