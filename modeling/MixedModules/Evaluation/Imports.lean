import MixedModules.Store.Conformance

/-! The first step of a module's evaluation: its imports are observed.

A script module reads what it imports from other script modules in place, so nothing
is done for these. Everything else is read now. An import across the kinds is
captured in the importer's own slot, and a binary module gets every import among its
entities, after a check where a script module provides it. -/
namespace MixedModules.Store

variable {κ : Type}

/-- The identity of the module that owns a slot. -/
def ownerOf (s : Store κ) (slot : SlotId) : String := ((s.slot? slot).map (·.owner)).getD ""

/-- Observes one import of the module of `e`. -/
def observeImport (e : EnvironmentId) (environment : Environment) (b : ImportBinding) :
    Change κ Unit := fun s =>
  match b.mode, environment.kind with
  | .live, .script => .ok ((), s)
  | .live, .binary => do
    let value ← s.readSlot b.target
    return ((), s.install e b.localName value)
  | .snapshot, .script => do
    let value ← s.readSlot b.target
    return ((), s.modifySlot b.own fun slot => slot.setSnapshot value)
  | .snapshot, .binary => do
    let value ← s.readSlot b.target
    match s.observe b.kind b.type value with
    | .ok (observed, s) =>
      let s := s.modifySlot b.own fun slot => slot.setSnapshot observed
      return ((), s.install e b.localName observed)
    | .error reason =>
      throw (.linkType ⟨environment.identity, b.localName, s.ownerOf b.target, reason⟩)

end MixedModules.Store
