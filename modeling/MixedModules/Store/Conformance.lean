import MixedModules.Coercion
import MixedModules.Store.Basic

/-! What a binary module accepts for a declared import.

An object is accepted as it is when its own type fits. Two things are made anew: an
immutable global for a plain number, and an adapter around a function that has no
signature. The same rules without values decide, when two binary modules are
linked, whether a declared import fits a declared export. -/
namespace MixedModules

/-- Whether an export of one binary module fits an import of another. -/
def checkLink (importKind : BindingKind) (importType : TypeSig) (exportKind : BindingKind)
    (exportType : TypeSig) : Except Incompatibility Unit :=
  if importKind ≠ exportKind then .error (.kindMismatch importKind exportKind)
  else match importType, exportType with
    | .numeric expected, .numeric actual =>
      if expected = actual then .ok () else .error (.globalType expected actual)
    | .resource kind required, .resource _ actual =>
      if actual.satisfies required then .ok () else .error (.limits kind required actual)
    | .function expected, .function actual =>
      if expected = actual then .ok () else .error (.signature expected actual)
    | _, _ => .error (.kindMismatch importKind exportKind)

namespace Store

variable {κ : Type}

/-- The value a binary module observes for `value` under a declared type, with the
store in which anything made for it lives. -/
abbrev Observed (κ : Type) := Except Incompatibility (Value × Store κ)

/-- An immutable global for a number, a big integer or a boolean. -/
def globalOfPlain (s : Store κ) (expected : GlobalType) (value : Value) : Observed κ :=
  if expected.isMutable then .error (.mutableFromPlainValue expected)
  else
    let refused : Observed κ := .error (.notNumeric expected.value value.typeName)
    match value with
    | .number _ | .bigint _ | .bool _ =>
      match value.toRaw expected.value with
      | .ok raw =>
        match newGlobal expected raw s with
        | .ok (g, s) => .ok (.global g, s)
        | .error _ => refused
      | .error _ => refused
    | _ => refused

def observeGlobal (s : Store κ) (expected : GlobalType) (value : Value) : Observed κ :=
  match value with
  | .global g =>
    match s.global g with
    | .ok global =>
      if global.type = expected then .ok (value, s)
      else .error (.globalType expected global.type)
    | .error _ => .error (.notNumeric expected.value value.typeName)
  | _ => s.globalOfPlain expected value

/-- The limits of a memory or of a table. -/
def limitsOf? (s : Store κ) (kind : ResourceKind) (value : Value) : Option Limits :=
  match kind, value with
  | .memory, .memory m => (s.memory m).toOption.map Memory.limits
  | .table, .table t => (s.table t).toOption.map Table.limits
  | _, _ => none

def observeResource (s : Store κ) (kind : ResourceKind) (required : Limits) (value : Value) :
    Observed κ :=
  match s.limitsOf? kind value with
  | some actual =>
    if actual.satisfies required then .ok (value, s) else .error (.limits kind required actual)
  | none => .error (.notResource kind value.typeName)

/-- A function with a signature must have the expected one. A function without gets
an adapter of its own name. -/
def observeFunction (s : Store κ) (expected : FuncType) (value : Value) : Observed κ :=
  match value with
  | .function f =>
    match s.function f with
    | .ok function =>
      match function.signature? with
      | some actual =>
        if actual = expected then .ok (value, s) else .error (.signature expected actual)
      | none =>
        let (adapter, s) := s.addFunction function.name (.adapter expected f)
        .ok (.function adapter, s)
    | .error _ => .error (.notCallable value.typeName)
  | _ => .error (.notCallable value.typeName)

/-- What a binary module observes for a script value. A declared kind that is not
the kind of the declared type fits nothing. -/
def observe (s : Store κ) (kind : BindingKind) (type : TypeSig) (value : Value) : Observed κ :=
  match kind, type with
  | .global, .numeric expected => s.observeGlobal expected value
  | .memory, .resource .memory required => s.observeResource .memory required value
  | .table, .resource .table required => s.observeResource .table required value
  | .function, .function expected => s.observeFunction expected value
  | kind, _ => .error (.kindMismatch kind .value)

end Store
end MixedModules
