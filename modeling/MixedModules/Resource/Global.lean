import MixedModules.Fault

/-! Globals: one raw number of a fixed type. -/
namespace MixedModules

/-- A global's declared type and the number it holds now. -/
structure Global where
  type : GlobalType
  value : Raw
deriving DecidableEq, Repr, Inhabited

namespace Global

/-- A global that starts with `initial`, whose type must be the declared one. -/
def new (type : GlobalType) (initial : Raw) : Except TypeFault Global :=
  if initial.type = type.value then .ok ⟨type, initial⟩
  else .error (.globalInitializer type initial.type)

/-- Stores a number. A global that may not change refuses every number, and says so
before it looks at the number's type. -/
def set (g : Global) (value : Raw) : Except TypeFault Global :=
  if !g.type.isMutable then .error .immutableGlobal
  else if value.type = g.type.value then .ok { g with value }
  else .error (.globalStore g.type value.type)

end Global
end MixedModules
