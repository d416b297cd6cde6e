import MixedModules.Store.Slot

/-! The graph of the modules reachable from an entry.

Nodes stand in the order in which they were added, and edges in the order in which
a module asks for others. A node is added once and an edge drawn once. -/
namespace MixedModules

/-- A module in a graph, with the modules it depends on. -/
structure Node where
  id : ModuleId
  identity : String
  kind : ModuleKind
  dependencies : List ModuleId
deriving DecidableEq, Repr, Inhabited

structure ModuleGraph where
  entry : ModuleId
  nodes : List Node
deriving DecidableEq, Repr, Inhabited

namespace ModuleGraph

def node? (g : ModuleGraph) (m : ModuleId) : Option Node := g.nodes.find? fun n => n.id = m

def contains (g : ModuleGraph) (m : ModuleId) : Bool := (g.node? m).isSome

/-- The modules, in the order in which they were added. -/
def modules (g : ModuleGraph) : List ModuleId := g.nodes.map (·.id)

def size (g : ModuleGraph) : Nat := g.nodes.length

def identity (g : ModuleGraph) (m : ModuleId) : String :=
  ((g.node? m).map (·.identity)).getD ""

/-- What a module depends on. A module that is not in the graph depends on nothing. -/
def dependencies (g : ModuleGraph) (m : ModuleId) : List ModuleId :=
  ((g.node? m).map (·.dependencies)).getD []

def isBinary (g : ModuleGraph) (m : ModuleId) : Bool :=
  (g.node? m).any fun n => n.kind == .binary

/-- Adds a module without dependencies, if it is not there yet. -/
def addModule (g : ModuleGraph) (m : ModuleId) (identity : String) (kind : ModuleKind) :
    ModuleGraph :=
  if g.contains m then g else { g with nodes := g.nodes ++ [⟨m, identity, kind, []⟩] }

/-- The graph of an entry alone. -/
def new (entry : ModuleId) (identity : String) (kind : ModuleKind) : ModuleGraph :=
  (ModuleGraph.mk entry []).addModule entry identity kind

/-- Draws an edge from a module in the graph, if it is not drawn yet. -/
def addDependency (g : ModuleGraph) (source target : ModuleId) : ModuleGraph :=
  { g with nodes := g.nodes.map fun n =>
      if n.id = source ∧ target ∉ n.dependencies then
        { n with dependencies := n.dependencies ++ [target] }
      else n }

end ModuleGraph
end MixedModules
