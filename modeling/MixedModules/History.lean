import MixedModules.Engine

/-! Histories: what can happen to one engine.

An embedder builds, links and evaluates in any order, as often as it likes and with
any outcome. In between it acts on the world itself, and what its loader finds may
change. Whatever is said of all histories is said of every state between two calls. -/
namespace MixedModules

/-- What stays the same in the life of an engine. -/
structure Setup (κ σ ℓ : Type) where
  resolver : Specifier.Resolver
  loader : Loader κ ℓ
  limits : BuildLimits
  interpreter : Interpreter κ σ

/-- A call of the embedder. Graphs are named by the number of graphs that were built,
or linked, after them. -/
inductive Call (κ σ ℓ : Type) where
  | build (entry : String)
  | link (graph : Nat)
  | evaluate (linked : Nat)
  | act (program : Program κ σ Unit)
  | restock (source : ℓ)

/-- An engine with its surroundings: the world it acts on, the source of its loader,
and the graphs that it has built and linked, the latest first. -/
structure Site (κ σ ℓ : Type) where
  engine : Engine κ
  world : World κ σ
  source : ℓ
  graphs : List ModuleGraph
  linked : List LinkedGraph

namespace Site

variable {κ σ ℓ : Type}

/-- A new engine over an empty store. -/
def start (memo : σ) (source : ℓ) : Site κ σ ℓ := ⟨.new, .start .empty memo, source, [], []⟩

/-- The registry of the engine. -/
def registry (site : Site κ σ ℓ) : Registry κ := site.engine.registry

/-- What a call changes. A call that refers to no graph changes nothing, nor does a
link that fails. An evaluation without an outcome never returns, so all that is left
of it is what it did to the world. -/
def make (setup : Setup κ σ ℓ) (site : Site κ σ ℓ) : Call κ σ ℓ → Site κ σ ℓ
  | .build entry =>
    let (result, engine, source) :=
      site.engine.build setup.resolver setup.loader setup.limits entry site.source
    let graphs := match result with
      | .ok g => g :: site.graphs
      | .error _ => site.graphs
    { site with engine, source, graphs }
  | .link n =>
    match site.graphs[n]? with
    | none => site
    | some g =>
      match site.engine.link g site.world.store with
      | .ok (linked, engine, store) =>
        { site with engine, world := site.world.become store, linked := linked :: site.linked }
      | .error _ => site
  | .evaluate n =>
    match site.linked[n]? with
    | none => site
    | some linked =>
      match site.engine.evaluate setup.interpreter linked site.world with
      | (some _, engine, world) => { site with engine, world }
      | (none, _, world) => { site with world }
  | .act program => { site with world := (program.run setup.interpreter.calls site.world).2 }
  | .restock source => { site with source }

/-- What is there after a history. -/
def run (setup : Setup κ σ ℓ) (site : Site κ σ ℓ) (calls : List (Call κ σ ℓ)) : Site κ σ ℓ :=
  calls.foldl (make setup) site

end Site
end MixedModules
