import MixedModules.Fault
import MixedModules.Scope

/-! Binding slots and module environments.

A slot is a named binding that one module owns. Importers never copy it: an import
refers to the slot that provides it, however many modules pass it on, and beside
that to a slot of its own for the case that the value is captured once. An
environment gathers what a linked module can reach. -/
namespace MixedModules

/-- The place of a slot in the store. -/
structure SlotId where
  index : Nat
deriving DecidableEq, Repr, Inhabited

/-- The place of an environment in the store. -/
structure EnvironmentId where
  index : Nat
deriving DecidableEq, Repr, Inhabited

/-- A module of one engine, numbered in the order of loading. -/
structure ModuleId where
  index : Nat
deriving DecidableEq, Repr, Inhabited

def ModuleId.text (m : ModuleId) : String := s!"#{m.index}"

/-- What a slot holds. A slot has no value before its owner runs, nor while the
owner runs and has not yet assigned it. A snapshot is captured once, a live value
is the current one. -/
inductive SlotContent where
  | uninitialized
  | deadZone
  | snapshot (value : Value)
  | live (value : Value)
deriving DecidableEq, Repr, Inhabited

def SlotContent.value? : SlotContent → Option Value
  | .uninitialized | .deadZone => none
  | .snapshot value | .live value => some value

/-- A named binding, with the identity of the module that owns it. -/
structure Slot where
  owner : String
  name : String
  kind : BindingKind
  type : TypeSig
  content : SlotContent
deriving DecidableEq, Repr, Inhabited

namespace Slot

def value? (s : Slot) : Option Value := s.content.value?

/-- The value, if the owner has produced it. -/
def read (s : Slot) : Except EvalError Value :=
  match s.value? with
  | some value => .ok value
  | none => .error (.uninitialized s.owner s.name)

/-- The owner starts to run. Only a slot that was never touched is affected. -/
def enterDeadZone (s : Slot) : Slot :=
  match s.content with
  | .uninitialized => { s with content := .deadZone }
  | _ => s

def setLive (s : Slot) (value : Value) : Slot := { s with content := .live value }

def setSnapshot (s : Slot) (value : Value) : Slot := { s with content := .snapshot value }

end Slot

/-- How an import observes the slot it refers to. -/
inductive BindingMode where
  | live
  | snapshot
deriving DecidableEq, Repr, Inhabited

/-- An import after linking: the slot that provides it, the module that owns that
slot, and the importer's own slot for a captured value. -/
structure ImportBinding where
  specifier : String
  name : String
  localName : String
  kind : BindingKind
  type : TypeSig
  origin : ModuleId
  originKind : ModuleKind
  target : SlotId
  own : SlotId
  mode : BindingMode
deriving DecidableEq, Repr, Inhabited

/-- The slot in which an import is read. -/
def ImportBinding.readSlot (b : ImportBinding) : SlotId :=
  match b.mode with
  | .live => b.target
  | .snapshot => b.own

/-- What a linked module can reach: its own bindings by local name, its exports, its
imports by local name, and the entities of a binary module. -/
structure Environment where
  identity : String
  kind : ModuleKind
  locals : Scope SlotId
  exports : Scope SlotId
  imports : Scope ImportBinding
  entities : Scope Value
deriving Repr, Inhabited

def Environment.unbound (e : Environment) (name : String) : EvalError :=
  .unbound e.identity name

end MixedModules
