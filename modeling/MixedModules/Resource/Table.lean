import MixedModules.Fault

/-! Tables: rows of function handles with holes. -/
namespace MixedModules

/-- The elements of a table. A missing function is a hole. -/
structure Table where
  maximum : Option Nat
  elements : Array (Option FunctionId)
deriving DecidableEq, Repr, Inhabited

namespace Table

/-- No table has more elements than this, whatever its declared maximum. -/
def greatestSize : Nat := 10000000

/-- A table of holes at its minimum size. -/
def new (limits : Limits) : Except TypeFault Table :=
  if limits.isValid && limits.min ≤ greatestSize then
    .ok ⟨limits.max, Array.replicate limits.min none⟩
  else .error (.invalidTableLimits limits)

def size (t : Table) : Nat := t.elements.size

/-- The bounds now, with the current size as the minimum. -/
def limits (t : Table) : Limits := ⟨t.size, t.maximum⟩

def get (t : Table) (index : Nat) : Except TypeFault (Option FunctionId) :=
  match t.elements[index]? with
  | some element => .ok element
  | none => .error (.tableIndex index t.size)

def set (t : Table) (index : Nat) (element : Option FunctionId) : Except TypeFault Table :=
  if index < t.size then .ok { t with elements := t.elements.setIfInBounds index element }
  else .error (.tableIndex index t.size)

/-- Adds copies of one element, and gives the size before. -/
def grow (t : Table) (delta : Nat) (element : Option FunctionId) :
    Except TypeFault (Nat × Table) :=
  if t.size + delta ≤ min (t.maximum.getD greatestSize) greatestSize then
    .ok (t.size, { t with elements := t.elements ++ Array.replicate delta element })
  else .error (.growTable t.size delta)

end Table
end MixedModules
