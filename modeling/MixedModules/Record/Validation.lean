import MixedModules.Record.Basic

/-! Well-formed records.

A record is checked once, when it is loaded, from its imports over its star exports
and exports to its body. The check names the first fault it meets. What later
stages rely on is here: every specifier used is asked for, names are distinct,
declared kinds and types agree, and a binary module exports only entities of its
own or observed imports, at their exact types. -/
namespace MixedModules

/-- What is wrong with a record. -/
inductive RecordFault where
  | importNotRequested (name specifier : String)
  | importKind (name : String) (kind typeKind : BindingKind)
  | binaryImportUntyped (name : String)
  | scriptImportTyped (name : String)
  | duplicateImport (name : String)
  | starNotRequested (specifier : String)
  | duplicateExport (name : String)
  | exportKind (name : String) (kind typeKind : BindingKind)
  | scriptExportTyped (name : String)
  | exportOfImport (name localName : String)
  | scriptObservedExport (name : String)
  | indirectNotRequested (name specifier : String)
  | duplicateEntity
  | shadowedImport (name : String)
  | undefinedReference (role name : String)
  | wrongReference (role name : String) (actual expected : BindingKind)
  | constantType (global : String) (type : GlobalType) (given : NumType)
  | importedInitializer (global source : String) (type : NumType)
  | startType (name : String)
  | binaryExportSource (name : String)
  | exportType (name : String) (declared : TypeSig) (source : String) (actual : TypeSig)
  | unknownEntity (name source : String)
deriving DecidableEq, Repr

def RecordFault.message : RecordFault → String
  | .importNotRequested name specifier =>
    s!"import '{name}' names module '{specifier}' which is not requested"
  | .importKind name kind typeKind =>
    s!"import '{name}' declares kind {kind.text} but a {typeKind.text} type"
  | .binaryImportUntyped name => s!"binary import '{name}' has no declared type"
  | .scriptImportTyped name => s!"script import '{name}' cannot declare a type"
  | .duplicateImport name => s!"duplicate import binding '{name}'"
  | .starNotRequested specifier => s!"star export of '{specifier}' which is not requested"
  | .duplicateExport name => s!"duplicate export name '{name}'"
  | .exportKind name kind typeKind =>
    s!"export '{name}' declares kind {kind.text} but a {typeKind.text} type"
  | .scriptExportTyped name => s!"script export '{name}' cannot declare a type"
  | .exportOfImport name localName =>
    s!"export '{name}' names import binding '{localName}'; re-export it instead"
  | .scriptObservedExport name => s!"script export '{name}' cannot re-export an import binding"
  | .indirectNotRequested name specifier =>
    s!"export '{name}' re-exports from '{specifier}' which is not requested"
  | .duplicateEntity => "duplicate entity name in binary module"
  | .shadowedImport name => s!"entity '{name}' shadows an import"
  | .undefinedReference role name => s!"{role} '{name}' is not defined"
  | .wrongReference role name actual expected =>
    s!"{role} '{name}' is a {actual.text}, not a {expected.text}"
  | .constantType global type given =>
    s!"global '{global}' of type {type.text} has a {given.text} initializer"
  | .importedInitializer global source type =>
    s!"global '{global}' is initialized from '{source}', not an imported {type.text} global"
  | .startType name => s!"start function '{name}' must have type () -> ()"
  | .binaryExportSource name => s!"binary export '{name}' must name an entity or an import"
  | .exportType name declared source actual =>
    s!"export '{name}' declares {declared.detail} but '{source}' has type {actual.detail}"
  | .unknownEntity name source => s!"export '{name}' names unknown entity '{source}'"

/-- A check passes or names a fault. -/
abbrev Check := Except RecordFault Unit

/-- Passes if `p` holds. -/
def require (p : Bool) (fault : RecordFault) : Check :=
  if p then .ok () else .error fault

/-- Runs one check on every member, up to the first fault. -/
def checkAll {α : Type} (check : α → Check) : List α → Check
  | [] => .ok ()
  | x :: rest => do check x; checkAll check rest

theorem checkAll_eq_ok_iff {α : Type} {check : α → Check} {xs : List α} :
    checkAll check xs = .ok () ↔ ∀ x ∈ xs, check x = .ok () := by
  induction xs with
  | nil => simp [checkAll]
  | cons x rest ih =>
    cases first : check x with
    | error fault => simp [checkAll, first, bind, Except.bind]
    | ok _ => simp [checkAll, first, bind, Except.bind, ih]

/-- Looks a name up in a list of declared types. -/
def typeOf? (types : List (String × TypeSig)) (name : String) : Option TypeSig :=
  (types.find? fun entry => entry.1 = name).map (·.2)

namespace Record

variable {κ : Type}

/-- The types under which a module reads its imports. -/
def importTypes (r : Record κ) : List (String × TypeSig) :=
  r.imports.map fun decl => (decl.localName, decl.type)

/-- Checks imports one after the other, knowing the local names before them. -/
def checkImports (r : Record κ) : List String → List ImportDecl → Check
  | _, [] => .ok ()
  | seen, decl :: rest => do
    require (r.requested.contains decl.specifier)
      (.importNotRequested decl.localName decl.specifier)
    require (decl.kind == decl.type.bindingKind)
      (.importKind decl.localName decl.kind decl.type.bindingKind)
    require (!(r.kind == .binary && decl.type == .none)) (.binaryImportUntyped decl.localName)
    require (!(r.kind == .script && decl.type != .none)) (.scriptImportTyped decl.localName)
    require (!seen.contains decl.localName) (.duplicateImport decl.localName)
    r.checkImports (decl.localName :: seen) rest

/-- Checks that export names are distinct and kinds fit their types. -/
def checkExports : List String → List (ExportDecl κ) → Check
  | _, [] => .ok ()
  | seen, decl :: rest => do
    require (!seen.contains decl.name) (.duplicateExport decl.name)
    require (decl.kind == decl.type.bindingKind)
      (.exportKind decl.name decl.kind decl.type.bindingKind)
    checkExports (decl.name :: seen) rest

/-- An export of a script module. -/
def checkScriptExport (r : Record κ) (decl : ExportDecl κ) : Check := do
  require (decl.type == .none) (.scriptExportTyped decl.name)
  match decl.source with
  | .own name =>
    require (!(r.imports.any fun i => i.localName = name)) (.exportOfImport decl.name name)
  | .observed _ => .error (.scriptObservedExport decl.name)
  | .indirect specifier _ =>
    require (r.requested.contains specifier) (.indirectNotRequested decl.name specifier)
  | .declaration _ => .ok ()

/-- A name that must denote an entity or an import of one kind. -/
def checkReference (types : List (String × TypeSig)) (role : String) (kind : BindingKind)
    (name : String) : Check :=
  match typeOf? types name with
  | none => .error (.undefinedReference role name)
  | some type =>
    require (type.bindingKind == kind) (.wrongReference role name type.bindingKind kind)

/-- The initial value of a global must have the global's own value type. -/
def checkInitializer (imports : List (String × TypeSig)) (d : GlobalDef) : Check :=
  match d.initial with
  | .constant value =>
    require (value.type == d.type.value) (.constantType d.name d.type value.type)
  | .imported localName =>
    match typeOf? imports localName with
    | some (.numeric type) =>
      require (type.value == d.type.value) (.importedInitializer d.name localName d.type.value)
    | _ => .error (.importedInitializer d.name localName d.type.value)

/-- The start function takes nothing and gives nothing. -/
def checkStart (types : List (String × TypeSig)) (name : String) : Check := do
  checkReference types "start function" .function name
  match typeOf? types name with
  | some (.function type) => require (type == ⟨[], []⟩) (.startType name)
  | _ => .ok ()

/-- An export of a binary module names an entity or an import at its exact type. -/
def checkBinaryExport (own imports : List (String × TypeSig)) (decl : ExportDecl κ) : Check :=
  let against (name : String) (found : Option TypeSig) : Check :=
    match found with
    | none => .error (.unknownEntity decl.name name)
    | some type => require (type == decl.type) (.exportType decl.name decl.type name type)
  match decl.source with
  | .own name => against name (typeOf? own name)
  | .observed localName => against localName (typeOf? imports localName)
  | .declaration _ | .indirect .. => .error (.binaryExportSource decl.name)

/-- The body of a binary module. -/
def checkBinary (r : Record κ) (body : BinaryBody κ) : Check := do
  let own := body.definitions
  let imports := r.importTypes
  require (decide (own.map (·.1)).Nodup) .duplicateEntity
  match own.find? fun entry => (typeOf? imports entry.1).isSome with
  | some entry => .error (.shadowedImport entry.1)
  | none => .ok ()
  let types := own ++ imports
  checkAll (checkInitializer imports) body.globals
  checkAll (fun s => checkReference types "data segment memory" .memory s.memory) body.data
  checkAll (fun s => do
    checkReference types "element segment table" .table s.table
    checkAll (checkReference types "element" .function) s.functions) body.elements
  match body.start with
  | some name => checkStart types name
  | none => .ok ()
  checkAll (checkBinaryExport own imports) r.exports

/-- Checks a record and names its first fault. -/
def validate (r : Record κ) : Check := do
  r.checkImports [] r.imports
  checkAll (fun s => require (r.requested.contains s) (.starNotRequested s)) r.stars
  checkExports [] r.exports
  match r.body with
  | .script _ => checkAll r.checkScriptExport r.exports
  | .binary body => r.checkBinary body

end Record
end MixedModules
