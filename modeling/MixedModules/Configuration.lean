import MixedModules.Graph.Construction
import MixedModules.Specifier.Directory
import MixedModules.Toml.Document

/-! Configurations of an engine.

Everything has a standard value, so an empty document is a configuration. A document
may say more than is known here, and what is not known is left alone. What is known
must be of the right sort, and within its range. -/
namespace MixedModules

structure Configuration where
  resolution : Specifier.Directory.Settings
  limits : BuildLimits
deriving DecidableEq, Repr

/-- Why a configuration is refused. -/
inductive ConfigurationError where
  | unreadable
  | malformed
  | noConcurrency
  | noModules
  | noIndexFile
  | extension (name : String)
deriving DecidableEq, Repr

def ConfigurationError.message : ConfigurationError → String
  | .unreadable => "Failed to read config file"
  | .malformed => "Failed to parse config"
  | .noConcurrency => "Invalid config: loader.concurrency must be at least 1"
  | .noModules => "Invalid config: graph.max_modules must be at least 1"
  | .noIndexFile => "Invalid config: resolver.index_file cannot be empty"
  | .extension name =>
    s!"Invalid config: resolver.extensions entry '{name}' must be a bare extension like \"js\""

namespace Configuration

/-- What holds where a document says nothing. -/
def standard : Configuration := ⟨⟨["js", "mjs", "wasm"], "index"⟩, ⟨4, 10000⟩⟩

/-! ## Reading parts of a document -/

/-- The parts of a node by their names. A row of values gives its parts in order, and
a moment has none of the names. -/
def parts (names : List String) : Toml.Node → Option (List (Option Toml.Node))
  | .table t => some (names.map t.entries.get?)
  | .array items => some ((List.range names.length).map fun i => items[i]?)
  | .rows rows => some ((List.range names.length).map fun i => rows[i]?.map .table)
  | .moment => some (names.map fun _ => none)
  | .text _ | .integer _ | .float _ | .boolean _ => none

def natural : Toml.Node → Option Nat
  | .integer n => n.toNat?
  | _ => none

def text : Toml.Node → Option String
  | .text s => some s
  | _ => none

def texts : Toml.Node → Option (List String)
  | .array items => items.mapM text
  | .rows [] => some []
  | _ => none

/-- A part that may be missing. -/
def orElse {α : Type} (standard : α) (read : Toml.Node → Option α) : Option Toml.Node → Option α
  | none => some standard
  | some node => read node

def readResolution (standard : Specifier.Directory.Settings) (node : Toml.Node) :
    Option Specifier.Directory.Settings := do
  let found ← parts ["extensions", "index_file"] node
  let extensions ← orElse standard.extensions texts (found.getD 0 none)
  let indexFile ← orElse standard.indexFile text (found.getD 1 none)
  return ⟨extensions, indexFile⟩

/-- A table with one number in it. -/
def readNumber (name : String) (standard : Nat) (node : Toml.Node) : Option Nat := do
  let found ← parts [name] node
  orElse standard natural (found.getD 0 none)

/-- What a document says, with the standard in the place of what it does not say. -/
def ofTable (t : Toml.Table Toml.Node) : Option Configuration := do
  let resolution ← orElse standard.resolution (readResolution standard.resolution)
    (t.entries.get? "resolver")
  let concurrency ← orElse standard.limits.concurrency
    (readNumber "concurrency" standard.limits.concurrency) (t.entries.get? "loader")
  let maxModules ← orElse standard.limits.maxModules
    (readNumber "max_modules" standard.limits.maxModules) (t.entries.get? "graph")
  return ⟨resolution, ⟨concurrency, maxModules⟩⟩

/-! ## Ranges -/

/-- Whether a name is an extension without its point. -/
def isExtension (name : String) : Bool := !name.isEmpty && !name.startsWith "."

/-- Checks the ranges and names the first value that is out of its range. -/
def check (c : Configuration) : Except ConfigurationError Unit :=
  if c.limits.concurrency = 0 then .error .noConcurrency
  else if c.limits.maxModules = 0 then .error .noModules
  else if c.resolution.indexFile.isEmpty then .error .noIndexFile
  else match c.resolution.extensions.find? fun name => !isExtension name with
    | some name => .error (.extension name)
    | none => .ok ()

/-- Reads a configuration from a text. -/
def ofText (source : String) : Except ConfigurationError Configuration := do
  let some t := Toml.read source | throw .malformed
  let some c := ofTable t | throw .malformed
  c.check
  return c

/-- Reads a configuration from the bytes of a file, if there is one. -/
def ofBytes (bytes : Option ByteArray) : Except ConfigurationError Configuration :=
  match bytes.bind String.fromUTF8? with
  | some source => ofText source
  | none => .error .unreadable

end Configuration
end MixedModules
