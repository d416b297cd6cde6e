import MixedModules.Value

/-! What can go wrong while modules are linked and evaluated.

Every failure is named by its cause and carries what the cause concerns; the
wording of a cause is given once, by its `message`, and its class by its `label`. -/
namespace MixedModules

/-- Why an import cannot have what it resolved to. -/
inductive Incompatibility where
  | kindMismatch (expected actual : BindingKind)
  | globalType (expected actual : GlobalType)
  | mutableFromPlainValue (expected : GlobalType)
  | notNumeric (expected : NumType) (actual : String)
  | limits (kind : ResourceKind) (expected actual : Limits)
  | notResource (kind : ResourceKind) (actual : String)
  | signature (expected actual : FuncType)
  | notCallable (actual : String)
deriving DecidableEq, Repr

namespace Incompatibility

def label : Incompatibility → String
  | .kindMismatch .. => "KindMismatch"
  | .globalType .. => "GlobalType"
  | .mutableFromPlainValue .. => "MutableFromPlainValue"
  | .notNumeric .. => "NotNumeric"
  | .limits .. => "Limits"
  | .notResource .. => "NotResource"
  | .signature .. => "Signature"
  | .notCallable .. => "NotCallable"

def message : Incompatibility → String
  | .kindMismatch expected actual => s!"expected a {expected.text} export, found a {actual.text}"
  | .globalType expected actual => s!"expected global {expected.text}, found global {actual.text}"
  | .mutableFromPlainValue expected =>
    s!"a plain value cannot satisfy a {expected.text} import; a global object is required"
  | .notNumeric expected actual => s!"cannot convert {actual} to {expected.text}"
  | .limits kind expected actual =>
    s!"{kind.text} limits {actual.text} do not satisfy required {expected.text}"
  | .notResource kind actual => s!"expected a {kind.text} object, found {actual}"
  | .signature expected actual =>
    s!"expected function {expected.text}, found function {actual.text}"
  | .notCallable actual => s!"expected a callable, found {actual}"

end Incompatibility

/-- An import whose type is not met: the importing module, the import's own name
there, and the module that owns what it resolved to. -/
structure LinkTypeError where
  importer : String
  name : String
  origin : String
  reason : Incompatibility
deriving DecidableEq, Repr

def LinkTypeError.message (e : LinkTypeError) : String :=
  s!"LinkTypeError: import '{e.name}' of '{e.importer}' from '{e.origin}': {e.reason.message}"

/-- Operations on values that have the wrong type or size for them. -/
inductive TypeFault where
  | bigintToNumber
  | toBigint (typeName : String)
  | globalInitializer (type : GlobalType) (given : NumType)
  | immutableGlobal
  | globalStore (type : GlobalType) (given : NumType)
  | invalidMemoryLimits (limits : Limits)
  | growMemory (pages delta : Nat)
  | memoryBounds (length offset size : Nat)
  | invalidTableLimits (limits : Limits)
  | tableIndex (index size : Nat)
  | growTable (size delta : Nat)
  | argumentTypes (function : String)
  | resultTypes (function : String)
  | severalResults (function : String) (count : Nat)
  | adapterResults (function : String) (count : Nat)
  | notBinaryCallable (function : String)
  | moduleGone (function : String)
  | assignToImport (name module : String)
  | notFunction (name typeName : String)
  | notEntity (name module : String) (kind : BindingKind)
  | unknownHandle (kind : BindingKind)
deriving DecidableEq, Repr

def TypeFault.message : TypeFault → String
  | .bigintToNumber => "cannot convert a BigInt to a number"
  | .toBigint typeName => s!"cannot convert {typeName} to a BigInt"
  | .globalInitializer type given =>
    s!"cannot initialize global {type.text} with a {given.text} value"
  | .immutableGlobal => "cannot assign to an immutable global"
  | .globalStore type given => s!"cannot store a {given.text} value in global {type.text}"
  | .invalidMemoryLimits limits => s!"invalid memory limits {limits.text}"
  | .growMemory pages delta => s!"cannot grow memory of {pages} pages by {delta}"
  | .memoryBounds length offset size =>
    s!"memory access out of bounds: {length} bytes at offset {offset} (size {size})"
  | .invalidTableLimits limits => s!"invalid table limits {limits.text}"
  | .tableIndex index size => s!"table index {index} out of bounds (size {size})"
  | .growTable size delta => s!"cannot grow table of {size} elements by {delta}"
  | .argumentTypes function => s!"argument types of '{function}' do not match its signature"
  | .resultTypes function => s!"result types of '{function}' do not match its signature"
  | .severalResults function count =>
    s!"'{function}' returns {count} values, which a Script caller cannot receive"
  | .adapterResults function count =>
    s!"a Script function cannot produce the {count} results '{function}' declares"
  | .notBinaryCallable function => s!"'{function}' is not a Binary-callable function"
  | .moduleGone function => s!"the module defining '{function}' has been dropped"
  | .assignToImport name module => s!"assignment to imported binding '{name}' in '{module}'"
  | .notFunction name typeName => s!"'{name}' is a {typeName}, not a function"
  | .notEntity name module kind => s!"'{name}' in '{module}' is not a {kind.text}"
  | .unknownHandle kind => s!"no such {kind.text}"

/-- The text of a type fault as an error of its own. -/
def TypeFault.errorText (fault : TypeFault) : String := s!"TypeError: {fault.message}"

/-- Why the segments of a binary module cannot be applied. -/
inductive TrapCause where
  | data (memory : String) (fault : TypeFault)
  | elements (table : String) (fault : TypeFault)
  | elementOverflow (table : String)
deriving DecidableEq, Repr

def TrapCause.message : TrapCause → String
  | .data memory fault => s!"data segment for '{memory}' does not fit: {fault.errorText}"
  | .elements table fault => s!"element segment for '{table}' does not fit: {fault.errorText}"
  | .elementOverflow table => s!"element segment for '{table}' overflows"

/-- Failures while modules are evaluated. -/
inductive EvalError where
  | uninitialized (module name : String)
  | unbound (module name : String)
  | linkType (error : LinkTypeError)
  | type (fault : TypeFault)
  | trap (module : String) (cause : TrapCause)
  | thrown (message : String)
  | notLinked (module : String)
deriving DecidableEq, Repr

namespace EvalError

def label : EvalError → String
  | .uninitialized .. => "Eval.Reference"
  | .unbound .. => "Eval.Unbound"
  | .linkType error => "Eval.LinkType." ++ error.reason.label
  | .type _ => "Eval.Type"
  | .trap .. => "Eval.Trap"
  | .thrown _ => "Eval.Thrown"
  | .notLinked _ => "Eval.NotLinked"

def message : EvalError → String
  | .uninitialized module name =>
    s!"ReferenceError: cannot access '{name}' in '{module}' before initialization"
  | .unbound module name => s!"ReferenceError: '{name}' is not defined in '{module}'"
  | .linkType error => error.message
  | .type fault => fault.errorText
  | .trap module cause => s!"RuntimeError in '{module}': {cause.message}"
  | .thrown message => s!"Uncaught error: {message}"
  | .notLinked module => s!"Module '{module}' has not been linked"

end EvalError

/-- Failures while a built graph is linked. -/
inductive LinkError where
  | unresolvedExport (module name importer : String)
  | ambiguousExport (module name importer : String)
  | linkType (error : LinkTypeError)
  | binaryCycle (identities : List String)
deriving DecidableEq, Repr

namespace LinkError

def label : LinkError → String
  | .unresolvedExport .. => "Link.UnresolvedExport"
  | .ambiguousExport .. => "Link.AmbiguousExport"
  | .linkType error => "Link.LinkType." ++ error.reason.label
  | .binaryCycle _ => "Link.UnsupportedCycle"

def message : LinkError → String
  | .unresolvedExport module name importer =>
    s!"UnresolvedExportError: '{module}' has no export named '{name}' (imported by '{importer}')"
  | .ambiguousExport module name importer =>
    s!"AmbiguousExportError: '{name}' is ambiguous in '{module}' (imported by '{importer}')"
  | .linkType error => error.message
  | .binaryCycle identities =>
    "UnsupportedCycleError: Binary modules depend on each other directly: " ++
      " -> ".intercalate identities

end LinkError
end MixedModules
