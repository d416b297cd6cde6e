import MixedModules.Resource.Global
import MixedModules.Resource.Memory
import MixedModules.Resource.Table
import MixedModules.Store.Slot

/-! The store: every object that values and environments refer to.

Objects are kept in rows, and a handle is a place in its row. Rows only grow, so a
handle means the same object for ever. Every operation here either succeeds with a
new store or fails with a reason; a failure leaves no trace, since it has no store
to leave it in. -/
namespace MixedModules

/-- What runs when a function is called. A script function and a binary function
belong to a module; an adapter lends a signature to a function that has none. -/
inductive Callable (κ : Type) where
  | script (code : κ) (home : EnvironmentId)
  | host (code : κ)
  | binary (type : FuncType) (code : κ) (home : EnvironmentId)
  | adapter (type : FuncType) (target : FunctionId)
deriving Repr

def Callable.signature? {κ : Type} : Callable κ → Option FuncType
  | .script .. | .host _ => none
  | .binary type .. | .adapter type _ => some type

structure Function (κ : Type) where
  name : String
  callable : Callable κ
deriving Repr

def Function.signature? {κ : Type} (f : Function κ) : Option FuncType := f.callable.signature?

structure Store (κ : Type) where
  globals : Array Global
  memories : Array Memory
  tables : Array Table
  functions : Array (Function κ)
  slots : Array Slot
  environments : Array Environment

instance {κ : Type} : Inhabited (Store κ) := ⟨⟨#[], #[], #[], #[], #[], #[]⟩⟩

/-- An operation on a store that succeeds with a new one or changes nothing. -/
abbrev Change (κ α : Type) := Store κ → Except EvalError (α × Store κ)

namespace Store

variable {κ : Type}

def empty : Store κ := ⟨#[], #[], #[], #[], #[], #[]⟩

private def fault {α : Type} (f : TypeFault) : Except EvalError α := .error (.type f)

/-! ## Globals -/

def global (s : Store κ) (g : GlobalId) : Except EvalError Global :=
  match s.globals[g.index]? with
  | some global => .ok global
  | none => fault (.unknownHandle .global)

def newGlobal (type : GlobalType) (initial : Raw) : Change κ GlobalId := fun s =>
  match Global.new type initial with
  | .ok global => .ok (⟨s.globals.size⟩, { s with globals := s.globals.push global })
  | .error f => fault f

def writeGlobal (g : GlobalId) (value : Raw) : Change κ Unit := fun s => do
  let global ← s.global g
  match global.set value with
  | .ok changed => .ok ((), { s with globals := s.globals.setIfInBounds g.index changed })
  | .error f => fault f

/-! ## Memories -/

def memory (s : Store κ) (m : MemoryId) : Except EvalError Memory :=
  match s.memories[m.index]? with
  | some memory => .ok memory
  | none => fault (.unknownHandle .memory)

def newMemory (limits : Limits) : Change κ MemoryId := fun s =>
  match Memory.new limits with
  | .ok memory => .ok (⟨s.memories.size⟩, { s with memories := s.memories.push memory })
  | .error f => fault f

def growMemory (m : MemoryId) (delta : Nat) : Change κ Nat := fun s => do
  let memory ← s.memory m
  match memory.grow delta with
  | .ok (before, grown) =>
    .ok (before, { s with memories := s.memories.setIfInBounds m.index grown })
  | .error f => fault f

def readMemory (s : Store κ) (m : MemoryId) (offset length : Nat) :
    Except EvalError (List UInt8) := do
  let memory ← s.memory m
  match memory.read offset length with
  | .ok bytes => .ok bytes
  | .error f => fault f

/-- The 32-bit number at an offset. -/
def loadMemory (s : Store κ) (m : MemoryId) (offset : Nat) : Except EvalError Int32 :=
  (s.readMemory m offset 4).map ofLittleEndian

def writeMemory (m : MemoryId) (offset : Nat) (bytes : List UInt8) : Change κ Unit := fun s => do
  let memory ← s.memory m
  match memory.write offset bytes with
  | .ok changed => .ok ((), { s with memories := s.memories.setIfInBounds m.index changed })
  | .error f => fault f

/-! ## Tables -/

def table (s : Store κ) (t : TableId) : Except EvalError Table :=
  match s.tables[t.index]? with
  | some table => .ok table
  | none => fault (.unknownHandle .table)

def newTable (limits : Limits) : Change κ TableId := fun s =>
  match Table.new limits with
  | .ok table => .ok (⟨s.tables.size⟩, { s with tables := s.tables.push table })
  | .error f => fault f

def readTable (s : Store κ) (t : TableId) (index : Nat) :
    Except EvalError (Option FunctionId) := do
  let table ← s.table t
  match table.get index with
  | .ok element => .ok element
  | .error f => fault f

def writeTable (t : TableId) (index : Nat) (element : Option FunctionId) : Change κ Unit :=
  fun s => do
    let table ← s.table t
    match table.set index element with
    | .ok changed => .ok ((), { s with tables := s.tables.setIfInBounds t.index changed })
    | .error f => fault f

def growTable (t : TableId) (delta : Nat) (element : Option FunctionId) : Change κ Nat :=
  fun s => do
    let table ← s.table t
    match table.grow delta element with
    | .ok (before, grown) =>
      .ok (before, { s with tables := s.tables.setIfInBounds t.index grown })
    | .error f => fault f

/-! ## Functions -/

def function (s : Store κ) (f : FunctionId) : Except EvalError (Function κ) :=
  match s.functions[f.index]? with
  | some function => .ok function
  | none => fault (.unknownHandle .function)

/-- Adds a function. Every handle it gives is new. -/
def addFunction (s : Store κ) (name : String) (callable : Callable κ) : FunctionId × Store κ :=
  (⟨s.functions.size⟩, { s with functions := s.functions.push ⟨name, callable⟩ })

/-! ## Slots -/

def slot? (s : Store κ) (i : SlotId) : Option Slot := s.slots[i.index]?

def addSlot (s : Store κ) (slot : Slot) : SlotId × Store κ :=
  (⟨s.slots.size⟩, { s with slots := s.slots.push slot })

def modifySlot (s : Store κ) (i : SlotId) (change : Slot → Slot) : Store κ :=
  { s with slots := s.slots.modify i.index change }

/-- The value in a slot, if its owner has produced it. -/
def readSlot (s : Store κ) (i : SlotId) : Except EvalError Value :=
  match s.slot? i with
  | some slot => slot.read
  | none => .error (.uninitialized "" "")

/-! ## Environments -/

def environment? (s : Store κ) (e : EnvironmentId) : Option Environment :=
  s.environments[e.index]?

def environment (s : Store κ) (e : EnvironmentId) : Except EvalError Environment :=
  match s.environment? e with
  | some environment => .ok environment
  | none => .error (.notLinked s!"#{e.index}")

def addEnvironment (s : Store κ) (environment : Environment) : EnvironmentId × Store κ :=
  (⟨s.environments.size⟩, { s with environments := s.environments.push environment })

def modifyEnvironment (s : Store κ) (e : EnvironmentId) (change : Environment → Environment) :
    Store κ :=
  { s with environments := s.environments.modify e.index change }

/-- Reads an imported binding. -/
def readImport (s : Store κ) (e : EnvironmentId) (name : String) : Except EvalError Value := do
  let environment ← s.environment e
  match environment.imports.get? name with
  | some binding => s.readSlot binding.readSlot
  | none => .error (environment.unbound name)

/-- Reads a name in the scope of a module: its own bindings first, then its imports. -/
def readName (s : Store κ) (e : EnvironmentId) (name : String) : Except EvalError Value := do
  let environment ← s.environment e
  match environment.locals.get? name with
  | some slot => s.readSlot slot
  | none => s.readImport e name

/-- Assigns an own binding. An imported name is refused before own names are looked at. -/
def assign (e : EnvironmentId) (name : String) (value : Value) : Change κ Unit := fun s => do
  let environment ← s.environment e
  if environment.imports.contains name then
    fault (.assignToImport name environment.identity)
  else match environment.locals.get? name with
    | some slot => .ok ((), s.modifySlot slot fun x => x.setLive value)
    | none => .error (environment.unbound name)

/-- An entity of a binary module: a definition or an observed import. -/
def readEntity (s : Store κ) (e : EnvironmentId) (name : String) : Except EvalError Value := do
  let environment ← s.environment e
  match environment.entities.get? name with
  | some value => .ok value
  | none => .error (environment.unbound name)

/-- Puts an entity under a name. -/
def install (s : Store κ) (e : EnvironmentId) (name : String) (value : Value) : Store κ :=
  s.modifyEnvironment e fun environment =>
    { environment with entities := environment.entities.put name value }

end Store
end MixedModules
