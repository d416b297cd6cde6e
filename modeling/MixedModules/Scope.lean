/-! Finite maps from names, in the order in which the names were first put.

A scope answers one question, the value under a name. Putting a name again keeps
its place, so the order of a scope never depends on how often it was written. -/
namespace MixedModules

/-- Values under distinct names. -/
structure Scope (α : Type) where
  entries : List (String × α)
deriving Repr, Inhabited

namespace Scope

variable {α : Type}

def empty : Scope α := ⟨[]⟩

instance : EmptyCollection (Scope α) := ⟨empty⟩

/-- The value under a name. -/
def get? (s : Scope α) (name : String) : Option α :=
  (s.entries.find? fun entry => entry.1 = name).map (·.2)

def contains (s : Scope α) (name : String) : Bool := (s.get? name).isSome

/-- Replaces the value under a name where it stands, or adds it at the end. -/
def putIn (name : String) (value : α) : List (String × α) → List (String × α)
  | [] => [(name, value)]
  | entry :: rest =>
    if entry.1 = name then (name, value) :: rest else entry :: putIn name value rest

def put (s : Scope α) (name : String) (value : α) : Scope α :=
  ⟨putIn name value s.entries⟩

/-- Takes a name out. -/
def erase (s : Scope α) (name : String) : Scope α :=
  ⟨s.entries.filter fun entry => entry.1 ≠ name⟩

def names (s : Scope α) : List String := s.entries.map (·.1)

def values (s : Scope α) : List α := s.entries.map (·.2)

def size (s : Scope α) : Nat := s.entries.length

/-- Puts the pairs one after the other, so a later pair wins. -/
def ofPairs (pairs : List (String × α)) : Scope α :=
  pairs.foldl (fun s pair => s.put pair.1 pair.2) empty

/-- The entries in rising order of their names. -/
def sorted (s : Scope α) : List (String × α) :=
  s.entries.mergeSort fun a b => a.1 ≤ b.1

@[simp] theorem get?_empty (name : String) : (empty : Scope α).get? name = none := rfl

private theorem find_putIn (entries : List (String × α)) (name other : String) (value : α) :
    ((putIn name value entries).find? fun entry => entry.1 = other).map (·.2) =
      if name = other then some value
      else (entries.find? fun entry => entry.1 = other).map (·.2) := by
  induction entries with
  | nil => by_cases same : name = other <;> simp [putIn, same]
  | cons entry rest ih => grind [putIn]

/-- Reading after a put gives the new value under its name and the old ones elsewhere. -/
@[simp] theorem get?_put (s : Scope α) (name other : String) (value : α) :
    (s.put name value).get? other = if name = other then some value else s.get? other :=
  find_putIn s.entries name other value

end Scope
end MixedModules
