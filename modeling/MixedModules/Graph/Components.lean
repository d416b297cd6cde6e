import MixedModules.Graph.Basic

/-! Strongly connected components of a part of a graph.

Two modules are in one component if each depends on the other, directly or through
others. The search numbers modules as it discovers them and keeps those whose
component is not complete on a stack. A module from which nothing earlier on the
stack can be reached completes a component: itself and all above it. Components
come out after those they depend on. -/
namespace MixedModules.ModuleGraph

/-- The state of the search: modules with their numbers, the stack with the latest
module first, and the complete components. -/
structure Search where
  numbers : List (ModuleId × Nat)
  stack : List ModuleId
  components : List (List ModuleId)

namespace Search

def start : Search := ⟨[], [], []⟩

def number? (s : Search) (m : ModuleId) : Option Nat :=
  (s.numbers.find? fun entry => entry.1 = m).map (·.2)

/-- Gives a module the next number and puts it on the stack. -/
def discover (s : Search) (m : ModuleId) : Search :=
  { s with numbers := (m, s.numbers.length) :: s.numbers, stack := m :: s.stack }

/-- Takes the component of `m` from the stack, in the order of discovery. -/
def complete (s : Search) (m : ModuleId) : Search :=
  let above := s.stack.takeWhile (· ≠ m)
  { s with
    stack := s.stack.drop (above.length + 1)
    components := s.components ++ [m :: above.reverse] }

end Search

/-- Visits `m`, which was not discovered before, and gives the least number on the
stack that can be reached from it. No way of first visits is longer than the graph,
which is the depth to visit with. -/
def visitComponent (g : ModuleGraph) (within : ModuleId → Bool) :
    Nat → ModuleId → Search → Nat × Search
  | 0, _, s => (s.numbers.length, s)
  | depth + 1, m, s =>
    let own := s.numbers.length
    let (low, s) := (g.dependencies m).foldl (fun (low, s) next =>
      if !within next then (low, s)
      else match s.number? next with
        | none =>
          let (reached, s) := g.visitComponent within depth next s
          (min low reached, s)
        | some number => if s.stack.contains next then (min low number, s) else (low, s))
      (own, s.discover m)
    (low, if low = own then s.complete m else s)

/-- The components of the modules that lie `within`, over the edges between them. -/
def components (g : ModuleGraph) (within : ModuleId → Bool) : List (List ModuleId) :=
  (g.modules.foldl (fun s m =>
    if within m && (s.number? m).isNone then (g.visitComponent within g.size m s).2 else s)
    Search.start).components

end MixedModules.ModuleGraph
