import MixedModules.Graph.Basic

/-! Cycles on which every module is binary.

Binary modules are instantiated as a whole, so they cannot wait for each other, and
such a cycle is refused. The search goes down from each binary module in turn,
keeps the path that led to the present one, and ends at the first edge back into
that path. -/
namespace MixedModules.ModuleGraph

/-- Searches below `m`, which is binary and was not seen before. `path` leads to it.
The search is cut off by a cycle, and otherwise gives all modules seen. No path is
longer than the graph, which is the depth to search with. -/
def searchBinary (g : ModuleGraph) : Nat → List ModuleId → ModuleId → List ModuleId →
    Except (List ModuleId) (List ModuleId)
  | 0, _, _, seen => .ok seen
  | depth + 1, path, m, seen =>
    let path := path ++ [m]
    (g.dependencies m).foldlM (fun seen next =>
      if !g.isBinary next then .ok seen
      else if !seen.contains next then g.searchBinary depth path next seen
      else if path.contains next then .error (path.dropWhile (· ≠ next) ++ [next])
      else .ok seen) (m :: seen)

/-- A cycle of binary modules, with its first module repeated at the end. -/
def binaryCycle? (g : ModuleGraph) : Option (List ModuleId) :=
  let search := g.modules.foldlM (fun seen m =>
    if !g.isBinary m || seen.contains m then .ok seen
    else g.searchBinary g.size [] m seen) []
  match search with
  | .ok _ => none
  | .error cycle => some cycle

end MixedModules.ModuleGraph
