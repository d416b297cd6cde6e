import MixedModules.Value

/-! Module records: what a loader hands over for one module.

A record lists the specifiers a module asks for, its imports and exports, and its
body. The code of a body belongs to the embedder, and a record holds it only as a
label of the type `κ`, so everything said about records holds for all code. -/
namespace MixedModules

/-- A name that a module takes from another one. -/
structure ImportDecl where
  /-- The specifier of the module imported from. -/
  specifier : String
  /-- The export asked for. -/
  name : String
  /-- The name by which the importing module reads it. -/
  localName : String
  kind : BindingKind
  type : TypeSig
deriving DecidableEq, Repr

/-- Where an export comes from: a binding of the module itself, a function declared
with the export and there from the start, the value observed for an import, or an
export of another module. -/
inductive ExportSource (κ : Type) where
  | own (name : String)
  | declaration (code : κ)
  | observed (localName : String)
  | indirect (specifier name : String)
deriving DecidableEq, Repr

/-- A name that a module gives to others. -/
structure ExportDecl (κ : Type) where
  name : String
  kind : BindingKind
  type : TypeSig
  source : ExportSource κ
deriving DecidableEq, Repr

/-- How a global of a binary module starts. -/
inductive Initializer where
  | constant (value : Raw)
  | imported (localName : String)
deriving DecidableEq, Repr

structure GlobalDef where
  name : String
  type : GlobalType
  initial : Initializer
deriving DecidableEq, Repr

/-- A memory or a table of a binary module. -/
structure SizedDef where
  name : String
  limits : Limits
deriving DecidableEq, Repr

structure FuncDef (κ : Type) where
  name : String
  type : FuncType
  code : κ
deriving DecidableEq, Repr

/-- Bytes copied into a memory when the module starts. -/
structure DataSegment where
  memory : String
  offset : Nat
  bytes : List UInt8
deriving DecidableEq, Repr

/-- Functions written into a table when the module starts. -/
structure ElementSegment where
  table : String
  offset : Nat
  functions : List String
deriving DecidableEq, Repr

/-- The definitions of a binary module. Its entities share one space of names with
its imports. -/
structure BinaryBody (κ : Type) where
  globals : List GlobalDef
  memories : List SizedDef
  tables : List SizedDef
  functions : List (FuncDef κ)
  data : List DataSegment
  elements : List ElementSegment
  start : Option String
deriving DecidableEq, Repr

/-- The entities a body defines, with their types. -/
def BinaryBody.definitions {κ : Type} (b : BinaryBody κ) : List (String × TypeSig) :=
  b.globals.map (fun d => (d.name, .numeric d.type)) ++
    b.memories.map (fun d => (d.name, .resource .memory d.limits)) ++
    b.tables.map (fun d => (d.name, .resource .table d.limits)) ++
    b.functions.map fun d => (d.name, .function d.type)

inductive Body (κ : Type) where
  | script (code : Option κ)
  | binary (definitions : BinaryBody κ)
deriving DecidableEq, Repr

/-- A parsed module. -/
structure Record (κ : Type) where
  requested : List String
  imports : List ImportDecl
  exports : List (ExportDecl κ)
  stars : List String
  body : Body κ
deriving DecidableEq, Repr

namespace Record

variable {κ : Type}

/-- A record that asks for nothing and gives nothing. -/
def ofBody (body : Body κ) : Record κ := ⟨[], [], [], [], body⟩

def kind (r : Record κ) : ModuleKind :=
  match r.body with
  | .script _ => .script
  | .binary _ => .binary

/-- Asks for a module. Asking twice changes nothing. -/
def request (r : Record κ) (specifier : String) : Record κ :=
  if r.requested.contains specifier then r
  else { r with requested := r.requested ++ [specifier] }

/-- Adds an import, and asks for its module. -/
def addImport (r : Record κ) (decl : ImportDecl) : Record κ :=
  let r := r.request decl.specifier
  { r with imports := r.imports ++ [decl] }

/-- Adds an export. One that comes from another module asks for that module. -/
def addExport (r : Record κ) (decl : ExportDecl κ) : Record κ :=
  let r := match decl.source with
    | .indirect specifier _ => r.request specifier
    | _ => r
  { r with exports := r.exports ++ [decl] }

/-- Gives on all exports of another module, and asks for it. -/
def addStar (r : Record κ) (specifier : String) : Record κ :=
  let r := r.request specifier
  { r with stars := r.stars ++ [specifier] }

end Record
end MixedModules
