import MixedModules.Evaluation.Traversal
import MixedModules.Graph.Construction
import MixedModules.Link.Basic

/-! Engines: modules are built into a graph, linked and evaluated, in this order.

An engine owns its modules. The world they act on and the loader belong to the
embedder and may serve several engines. Each stage is a function of the engine, and
`run` puts the three together. -/
namespace MixedModules

/-- Any failure on the way from an entry to its exports. -/
inductive EngineError where
  | graph (e : GraphError)
  | link (e : LinkError)
  | eval (e : EvalError)
deriving DecidableEq, Repr

namespace EngineError

def label : EngineError → String
  | graph e => e.label
  | link e => e.label
  | eval e => e.label

def message : EngineError → String
  | graph e => e.message
  | link e => e.message
  | eval e => e.message

end EngineError

/-- A graph whose modules are linked. -/
structure LinkedGraph where
  graph : ModuleGraph
deriving DecidableEq, Repr

/-- The exports of an evaluated module, in rising order of names. -/
structure Namespace where
  identity : String
  slots : List (String × SlotId)
deriving DecidableEq, Repr

/-- The present value of an export. -/
def Namespace.read {κ : Type} (ns : Namespace) (s : Store κ) (name : String) :
    Except EvalError Value :=
  match ns.slots.find? fun entry => entry.1 = name with
  | some (_, slot) => s.readSlot slot
  | none => .error (.unbound ns.identity name)

/-- The modules of an engine, and the number of traversals it has started. -/
structure Engine (κ : Type) where
  registry : Registry κ
  traversals : Nat

namespace Engine

variable {κ σ ℓ : Type}

def new : Engine κ := ⟨.empty, 0⟩

/-- Builds the graph of an entry. -/
def build (resolver : Specifier.Resolver) (loader : Loader κ ℓ) (limits : BuildLimits)
    (entry : String) (engine : Engine κ) (source : ℓ) :
    Except Stop ModuleGraph × Engine κ × ℓ :=
  let (result, stock) := (ModuleGraph.build resolver loader limits entry).run
    ⟨engine.registry, source⟩
  (result, { engine with registry := stock.registry }, stock.source)

/-- Links a graph. -/
def link (g : ModuleGraph) (engine : Engine κ) (s : Store κ) :
    Except LinkError (LinkedGraph × Engine κ × Store κ) := do
  let links ← Links.link ⟨engine.registry, s⟩ g
  return (⟨g⟩, { engine with registry := links.registry }, links.store)

/-- The exports of a registered module. -/
def namespaceOf (engine : Engine κ) (s : Store κ) (m : ModuleId) : Namespace :=
  ⟨((engine.registry.get? m).map (·.identity)).getD "", engine.registry.namespaceSlots s m⟩

/-- Evaluates a linked graph from its entry. -/
def evaluate (interpreter : Interpreter κ σ) (linked : LinkedGraph) (engine : Engine κ)
    (world : World κ σ) : Option (Except EvalError Namespace) × Engine κ × World κ σ :=
  let entry := linked.graph.entry
  let traversal := engine.traversals + 1
  let (outcome, machine) := Machine.evaluate interpreter traversal entry ⟨engine.registry, world⟩
  let engine : Engine κ := ⟨machine.registry, traversal⟩
  let result := outcome.map fun result =>
    result.map fun _ => engine.namespaceOf machine.world.store entry
  (result, engine, machine.world)

def progress? (engine : Engine κ) (identity : String) : Option Progress := do
  return (← engine.registry.get? (← engine.registry.lookup identity)).progress

/-- The environment of a linked module, with its record. -/
def environment? (engine : Engine κ) (identity : String) :
    Option (EnvironmentId × Instance κ) := do
  let i ← engine.registry.get? (← engine.registry.lookup identity)
  return (← i.environment, i)

end Engine
end MixedModules
