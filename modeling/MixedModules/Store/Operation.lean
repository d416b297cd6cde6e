import MixedModules.Store.Conformance

/-! The operations that code may apply to the store.

This is the whole reach of a module body: whatever it does to a value, a slot or an
environment is one of these operations, and each of them answers or fails as a
single step. Invariants of the store are shown here, operation by operation. -/
namespace MixedModules

/-- What can be seen of a value at one moment. -/
inductive Description where
  | primitive (value : Value)
  | global (g : GlobalId) (state : Global)
  | memory (m : MemoryId) (limits : Limits)
  | table (t : TableId) (limits : Limits)
  | function (f : FunctionId) (name : String) (signature : Option FuncType)
deriving Repr

/-- The kind of binding that a handle can be bound as. Primitives are plain values. -/
def Value.bindingKind : Value → BindingKind
  | .global _ => .global
  | .memory _ => .memory
  | .table _ => .table
  | .function _ => .function
  | _ => .value

namespace Store

variable {κ : Type}

/-- Describes a value by the present state of the object it refers to. -/
def describe (s : Store κ) (value : Value) : Description :=
  let described : Except EvalError Description := match value with
    | .global g => (s.global g).map (.global g)
    | .memory m => (s.memory m).map fun memory => .memory m memory.limits
    | .table t => (s.table t).map fun table => .table t table.limits
    | .function f => (s.function f).map fun function => .function f function.name function.signature?
    | _ => .ok (.primitive value)
  match described with
  | .ok description => description
  | .error _ => .primitive value

/-- An entity as a part of it that only one kind of value has. -/
def readEntityAs {α : Type} (s : Store κ) (kind : BindingKind) (part : Value → Option α)
    (e : EnvironmentId) (name : String) : Except EvalError α := do
  let environment ← s.environment e
  match part (← s.readEntity e name) with
  | some x => .ok x
  | none => .error (.type (.notEntity name environment.identity kind))

/-- An entity that must be of one kind. -/
def readEntityOf (s : Store κ) (kind : BindingKind) (e : EnvironmentId) (name : String) :
    Except EvalError Value :=
  s.readEntityAs kind (fun value => if value.bindingKind = kind then some value else none) e name

end Store

/-- An operation on the store. -/
inductive Operation (κ : Type) where
  | newGlobal (type : GlobalType) (initial : Raw)
  | readGlobal (g : GlobalId)
  | writeGlobal (g : GlobalId) (value : Raw)
  | newMemory (limits : Limits)
  | memoryLimits (m : MemoryId)
  | growMemory (m : MemoryId) (delta : Nat)
  | readMemory (m : MemoryId) (offset length : Nat)
  | loadMemory (m : MemoryId) (offset : Nat)
  | writeMemory (m : MemoryId) (offset : Nat) (bytes : List UInt8)
  | newTable (limits : Limits)
  | tableLimits (t : TableId)
  | readTable (t : TableId) (index : Nat)
  | writeTable (t : TableId) (index : Nat) (element : Option FunctionId)
  | growTable (t : TableId) (delta : Nat) (element : Option FunctionId)
  | newHost (name : String) (code : κ)
  | newClosure (home : EnvironmentId) (name : String) (code : κ)
  | readFunction (f : FunctionId)
  | observe (kind : BindingKind) (type : TypeSig) (value : Value)
  | describe (value : Value)
  | moduleKind (home : EnvironmentId)
  | readName (home : EnvironmentId) (name : String)
  | readImport (home : EnvironmentId) (name : String)
  | readEntity (home : EnvironmentId) (name : String)
  | readEntityOf (kind : BindingKind) (home : EnvironmentId) (name : String)
  | assign (home : EnvironmentId) (name : String) (value : Value)

namespace Operation

variable {κ : Type}

/-- What an operation answers. -/
@[reducible] def Answer : Operation κ → Type
  | newGlobal .. => GlobalId
  | readGlobal .. => Global
  | writeGlobal .. => Unit
  | newMemory .. => MemoryId
  | memoryLimits .. => Limits
  | growMemory .. => Nat
  | readMemory .. => List UInt8
  | loadMemory .. => Int32
  | writeMemory .. => Unit
  | newTable .. => TableId
  | tableLimits .. => Limits
  | readTable .. => Option FunctionId
  | writeTable .. => Unit
  | growTable .. => Nat
  | newHost .. => FunctionId
  | newClosure .. => FunctionId
  | readFunction .. => String × Option FuncType
  | observe .. => Except Incompatibility Value
  | describe .. => Description
  | moduleKind .. => ModuleKind
  | readName .. => Value
  | readImport .. => Value
  | readEntity .. => Value
  | readEntityOf .. => Value
  | assign .. => Unit

/-- A 32-bit number is stored by writing its bytes. -/
@[reducible] def storeMemory (m : MemoryId) (offset : Nat) (n : Int32) : Operation κ :=
  writeMemory m offset (littleEndian n)

/-- An operation that only reads. -/
def reading {α : Type} (read : Store κ → Except EvalError α) : Change κ α := fun s =>
  (read s).map fun answer => (answer, s)

/-- The effect of an operation. -/
def perform : (o : Operation κ) → Change κ o.Answer
  | newGlobal type initial => Store.newGlobal type initial
  | readGlobal g => reading fun s => s.global g
  | writeGlobal g value => Store.writeGlobal g value
  | newMemory limits => Store.newMemory limits
  | memoryLimits m => reading fun s => (s.memory m).map Memory.limits
  | growMemory m delta => Store.growMemory m delta
  | readMemory m offset length => reading fun s => s.readMemory m offset length
  | loadMemory m offset => reading fun s => s.loadMemory m offset
  | writeMemory m offset bytes => Store.writeMemory m offset bytes
  | newTable limits => Store.newTable limits
  | tableLimits t => reading fun s => (s.table t).map Table.limits
  | readTable t index => reading fun s => s.readTable t index
  | writeTable t index element => Store.writeTable t index element
  | growTable t delta element => Store.growTable t delta element
  | newHost name code => fun s => .ok (s.addFunction name (.host code))
  | newClosure home name code => fun s => .ok (s.addFunction name (.script code home))
  | readFunction f => reading fun s => (s.function f).map fun x => (x.name, x.signature?)
  | observe kind type value => fun s =>
    match s.observe kind type value with
    | .ok (observed, s) => .ok (.ok observed, s)
    | .error reason => .ok (.error reason, s)
  | describe value => reading fun s => .ok (s.describe value)
  | moduleKind home => reading fun s => (s.environment home).map (·.kind)
  | readName home name => reading fun s => s.readName home name
  | readImport home name => reading fun s => s.readImport home name
  | readEntity home name => reading fun s => s.readEntity home name
  | readEntityOf kind home name => reading fun s => s.readEntityOf kind home name
  | assign home name value => Store.assign home name value

end Operation
end MixedModules
