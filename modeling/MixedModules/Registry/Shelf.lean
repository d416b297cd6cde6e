import MixedModules.Registry.Loading
import MixedModules.Scope

/-! A loader over records that are at hand.

It hands over the record of an identity, unless a fault is set for the identity, and
it counts how often each identity was asked for. -/
namespace MixedModules

/-- Records, faults and counts, each by identity. -/
structure Shelf (κ : Type) where
  records : Scope (Record κ)
  faults : Scope (Loaded κ)
  asked : Scope Nat

namespace Shelf

variable {κ : Type}

def empty : Shelf κ := ⟨.empty, .empty, .empty⟩

/-- Puts a record in, in the place of an earlier one. -/
def insert (s : Shelf κ) (identity : String) (record : Record κ) : Shelf κ :=
  { s with records := s.records.put identity record }

/-- Sets what is handed over in the place of a record, or clears it. -/
def setFault (s : Shelf κ) (identity : String) : Option (Loaded κ) → Shelf κ
  | some fault => { s with faults := s.faults.put identity fault }
  | none => { s with faults := s.faults.erase identity }

/-- Hands over what there is for an identity. -/
def loader : Loader κ (Shelf κ) := fun identity s =>
  let s := { s with asked := s.asked.put identity ((s.asked.get? identity).getD 0 + 1) }
  match s.faults.get? identity, s.records.get? identity with
  | some fault, _ => (fault, s)
  | none, some record => (.record record, s)
  | none, none => (.unfetched s!"no module registered as '{identity}'", s)

end Shelf
end MixedModules
