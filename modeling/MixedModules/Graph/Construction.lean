import MixedModules.Graph.Basic
import MixedModules.Registry.Loading

/-! Building the graph of an entry.

The graph grows in rounds. In each round the modules found last are expanded: their
specifiers are resolved and the modules meant are loaded. Those that are new make up
the next round. Expansion may take several modules at a time, in which case all of
them are expanded before the first failure among them counts. -/
namespace MixedModules

/-- The bounds of a build: how many modules are expanded at a time and how many a
graph may have. -/
structure BuildLimits where
  concurrency : Nat
  maxModules : Nat
deriving DecidableEq, Repr

/-- Cuts a list into pieces of `size + 1` members, the last one perhaps shorter. -/
def pieces {α : Type} (size : Nat) (xs : List α) : List (List α) :=
  match xs with
  | [] => []
  | x :: rest => (x :: rest.take size) :: pieces size (rest.drop size)
termination_by xs.length
decreasing_by simp only [List.length_cons, List.length_drop]; omega

namespace Loads

variable {κ ℓ : Type}

/-- The outcome as a value, so that others can go on. -/
def attempt {α : Type} (x : Loads κ ℓ α) : Loads κ ℓ (Except Stop α) := fun stock =>
  let (result, stock) := x stock
  (.ok result, stock)

/-- Resolves a specifier. -/
def resolve (resolver : Specifier.Resolver) (specifier : String) (referrer : Option String) :
    Loads κ ℓ String :=
  match resolver specifier referrer with
  | .ok identity => return identity
  | .error reason => fail (.resolution specifier referrer reason)

/-- Resolves and loads what a module asks for. The result is kept, and a later
expansion of the module only repeats it. -/
def expand (resolver : Specifier.Resolver) (loader : Loader κ ℓ) (m : ModuleId) :
    Loads κ ℓ Dependencies := do
  let i ← instanceOf m
  match i.dependencies with
  | some dependencies => return dependencies
  | none =>
    let dependencies ← i.record.requested.mapM fun specifier => do
      let identity ← resolve resolver specifier (some i.identity)
      return (specifier, ← obtain loader identity)
    modify fun stock => { stock with registry := stock.registry.setDependencies m dependencies }
    return dependencies

/-- Expands a module beside others. A crash of the loader there is a failure of the
module being expanded. -/
def expandBeside (resolver : Specifier.Resolver) (loader : Loader κ ℓ) (m : ModuleId) :
    Loads κ ℓ (Except Stop Dependencies) := do
  match ← (expand resolver loader m).attempt with
  | .error .crashed =>
    let identity := (((← get).registry.get? m).map (·.identity)).getD m.text
    return .error (.failed (.fetch identity "loader worker panicked"))
  | result => return result

/-- Expands the modules of one round, in order. With more than one worker a round is cut into
pieces. The loads of a piece may then overlap, and how they interleave is left out: here they are
made one after the other, and this order decides how new modules are numbered. -/
def expandAll (resolver : Specifier.Resolver) (loader : Loader κ ℓ) (concurrency : Nat)
    (round : List ModuleId) : Loads κ ℓ (List Dependencies) := do
  if concurrency ≤ 1 || round.length = 1 then
    round.mapM (expand resolver loader)
  else
    let results ← (pieces (concurrency - 1) round).mapM fun piece => do
      let results ← piece.mapM (expandBeside resolver loader)
      results.mapM fun result => (liftM result : Loads κ ℓ Dependencies)
    return results.flatten

end Loads

/-- A graph that grows, with the modules found in the present round. -/
structure Growth where
  graph : ModuleGraph
  found : List ModuleId

namespace Growth

variable {κ ℓ : Type}

/-- Draws an edge. A module that is new to the graph is added, if there is room. -/
def connect (limit : Nat) (source : ModuleId) (growth : Growth) (target : ModuleId) :
    Loads κ ℓ Growth := do
  let growth ←
    if growth.graph.contains target then pure growth
    else if limit ≤ growth.graph.size then Loads.fail (.tooLarge limit)
    else do
      let i ← Loads.instanceOf target
      pure ⟨growth.graph.addModule target i.identity i.kind, growth.found ++ [target]⟩
  return { growth with graph := growth.graph.addDependency source target }

/-- Draws the edges of all modules of a round. -/
def connectAll (limit : Nat) (graph : ModuleGraph) (edges : List (ModuleId × Dependencies)) :
    Loads κ ℓ Growth :=
  edges.foldlM (fun growth (source, dependencies) =>
    (dependencies.map (·.2)).foldlM (connect limit source) growth) ⟨graph, []⟩

end Growth

namespace ModuleGraph

variable {κ ℓ : Type}

/-- Grows a graph round by round. Every round but the last adds a module, so the
limit on modules bounds the rounds too. -/
def grow (resolver : Specifier.Resolver) (loader : Loader κ ℓ) (limits : BuildLimits) :
    Nat → ModuleGraph → List ModuleId → Loads κ ℓ ModuleGraph
  | _, graph, [] => return graph
  | 0, _, _ => Loads.fail (.tooLarge limits.maxModules)
  | rounds + 1, graph, round => do
    let expanded ← Loads.expandAll resolver loader limits.concurrency round
    let growth ← Growth.connectAll limits.maxModules graph (round.zip expanded)
    growth.graph.grow resolver loader limits rounds growth.found

/-- The graph of everything reachable from an entry. -/
def build (resolver : Specifier.Resolver) (loader : Loader κ ℓ) (limits : BuildLimits)
    (entry : String) : Loads κ ℓ ModuleGraph := do
  let identity ← Loads.resolve resolver entry none
  let m ← Loads.obtain loader identity
  let i ← Loads.instanceOf m
  grow resolver loader limits (limits.maxModules + 1) (.new m identity i.kind) [m]

end ModuleGraph
end MixedModules
