import MixedModules.Record.Validation
import MixedModules.Registry.Basic
import MixedModules.Specifier.Resolver

/-! Loading modules into a registry.

A loader is asked only for identities that are not registered, and what it hands
over is registered only if it is well formed. A load that fails leaves the registry
as it was, so the next request for the identity asks the loader again. -/
namespace MixedModules

/-- Failures while a graph is built. -/
inductive GraphError where
  | resolution (specifier : String) (referrer : Option String)
      (reason : Specifier.ResolveError)
  | fetch (identity message : String)
  | malformed (identity message : String)
  | tooLarge (limit : Nat)
deriving DecidableEq, Repr

namespace GraphError

def label : GraphError → String
  | .resolution _ _ reason => "Graph.Resolution." ++ reason.label
  | .fetch .. => "Graph.Fetch"
  | .malformed .. => "Graph.Syntax"
  | .tooLarge _ => "Graph.GraphTooLarge"

def message : GraphError → String
  | .resolution specifier referrer reason =>
    let place := match referrer with
      | some identity => s!" from '{identity}'"
      | none => ""
    s!"ResolutionError: cannot resolve '{specifier}'{place}: {reason.message}"
  | .fetch identity message => s!"FetchError: cannot load '{identity}': {message}"
  | .malformed identity message => s!"SyntaxError in '{identity}': {message}"
  | .tooLarge limit => s!"Module graph exceeds the limit of {limit} modules"

end GraphError

/-- What a loader hands over for an identity: a record, a reason why there is none,
or nothing at all because it crashed. -/
inductive Loaded (κ : Type) where
  | record (r : Record κ)
  | unfetched (message : String)
  | unparsed (message : String)
  | crashed

/-- A loader with a state `ℓ` of its own. -/
abbrev Loader (κ ℓ : Type) := String → ℓ → Loaded κ × ℓ

/-- Why a build stops: for a reason, or because the loader crashed. -/
inductive Stop where
  | failed (e : GraphError)
  | crashed
deriving DecidableEq, Repr

/-- A registry that is being filled, with the state of the loader. -/
structure Stock (κ ℓ : Type) where
  registry : Registry κ
  source : ℓ

/-- A computation that loads modules. Modules loaded before a stop stay registered. -/
abbrev Loads (κ ℓ : Type) := ExceptT Stop (StateM (Stock κ ℓ))

namespace Loads

variable {κ ℓ : Type}

def fail {α : Type} (e : GraphError) : Loads κ ℓ α := throw (.failed e)

/-- Asks the loader and registers what it hands over. -/
def load (loader : Loader κ ℓ) (identity : String) : Loads κ ℓ ModuleId := do
  let stock ← get
  let (loaded, source) := loader identity stock.source
  set { stock with source }
  match loaded with
  | .record record =>
    match record.validate with
    | .ok _ =>
      let (m, registry) := stock.registry.register identity record
      set (Stock.mk registry source)
      return m
    | .error fault => fail (.malformed identity fault.message)
  | .unfetched message => fail (.fetch identity message)
  | .unparsed message => fail (.malformed identity message)
  | .crashed => throw .crashed

/-- The module of an identity, loaded if it is not registered. -/
def obtain (loader : Loader κ ℓ) (identity : String) : Loads κ ℓ ModuleId := do
  match (← get).registry.lookup identity with
  | some m => return m
  | none => load loader identity

/-- A registered module. -/
def instanceOf (m : ModuleId) : Loads κ ℓ (Instance κ) := do
  match (← get).registry.get? m with
  | some i => return i
  | none => fail (.fetch m.text "module vanished from the registry")

end Loads
end MixedModules
