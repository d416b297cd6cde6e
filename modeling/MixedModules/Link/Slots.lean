import MixedModules.Record.Basic
import MixedModules.Store.Basic

/-! The slots of a module, made when it is linked.

A function declared with an export has its value from the start, so these slots come
first. Then every export that is not another module's gets its slot: in a script
module the slot of the own binding it names, which several exports may share, and in
a binary module one of its own. -/
namespace MixedModules

/-- The bindings of a module while its slots are made. -/
structure Bindings where
  locals : Scope SlotId
  exports : Scope SlotId

namespace Store

variable {κ : Type}

/-- Makes a declared function, in a slot that holds it. -/
def declareFunction (identity : String) (home : EnvironmentId) (state : Scope SlotId × Store κ)
    (decl : ExportDecl κ) : Scope SlotId × Store κ :=
  match decl.source with
  | .declaration code =>
    let (locals, s) := state
    let (f, s) := s.addFunction decl.name (.script code home)
    let (slot, s) := s.addSlot ⟨identity, decl.name, .value, .none, .live (.function f)⟩
    (locals.put decl.name slot, s)
  | _ => state

/-- The slot of an own binding, made if there is none yet. -/
def ownSlot (identity name : String) (locals : Scope SlotId) (s : Store κ) :
    SlotId × Scope SlotId × Store κ :=
  match locals.get? name with
  | some slot => (slot, locals, s)
  | none =>
    let (slot, s) := s.addSlot ⟨identity, name, .value, .none, .uninitialized⟩
    (slot, locals.put name slot, s)

/-- Gives an export its slot. -/
def exportSlot (identity : String) (kind : ModuleKind) (state : Bindings × Store κ)
    (decl : ExportDecl κ) : Bindings × Store κ :=
  let (bindings, s) := state
  let separate : Bindings × Store κ :=
    let (slot, s) := s.addSlot ⟨identity, decl.name, decl.kind, decl.type, .uninitialized⟩
    ({ bindings with exports := bindings.exports.put decl.name slot }, s)
  match decl.source, kind with
  | .own name, .script =>
    let (slot, locals, s) := s.ownSlot identity name bindings.locals
    (⟨locals, bindings.exports.put decl.name slot⟩, s)
  | .declaration _, _ =>
    match bindings.locals.get? decl.name with
    | some slot => ({ bindings with exports := bindings.exports.put decl.name slot }, s)
    | none => state
  | .indirect .., _ => state
  | .own _, .binary => separate
  | .observed _, _ => separate

/-- Makes the environment of a module, without imports and entities. -/
def allocate (s : Store κ) (identity : String) (record : Record κ) : EnvironmentId × Store κ :=
  let home : EnvironmentId := ⟨s.environments.size⟩
  let (locals, s) := record.exports.foldl (declareFunction identity home) (.empty, s)
  let (bindings, s) := record.exports.foldl (exportSlot identity record.kind) (⟨locals, .empty⟩, s)
  s.addEnvironment
    ⟨identity, record.kind, bindings.locals, bindings.exports, .empty, .empty⟩

end Store
end MixedModules
