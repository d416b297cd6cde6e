import MixedModules.Proofs.Graph.BinaryCycle

/-! Graphs whose modules are numbered otherwise.

The search for cycles of binary modules only ever compares modules of the graph, so where
these get other numbers, each its own, it goes the same way and finds the same cycle. -/
namespace MixedModules.ModuleGraph

/-- A graph with other numbers for its modules. -/
def rename (f : ModuleId → ModuleId) (g : ModuleGraph) : ModuleGraph where
  entry := f g.entry
  nodes := g.nodes.map fun n => ⟨f n.id, n.identity, n.kind, n.dependencies.map f⟩

/-- Modules of a graph keep apart under their other numbers. -/
def Separates (f : ModuleId → ModuleId) (g : ModuleGraph) : Prop :=
  ∀ m ∈ g.modules, ∀ m' ∈ g.modules, f m = f m' → m = m'

variable {f : ModuleId → ModuleId} {g : ModuleGraph} {m next : ModuleId}
  {path seen : List ModuleId} {depth : Nat}

theorem modules_rename (f : ModuleId → ModuleId) (g : ModuleGraph) :
    (g.rename f).modules = g.modules.map f := by
  simp [rename, modules]

theorem size_rename (f : ModuleId → ModuleId) (g : ModuleGraph) : (g.rename f).size = g.size :=
  List.length_map _

section Numbers

variable (apart : g.Separates f)

include apart

theorem node?_rename (member : m ∈ g.modules) : (g.rename f).node? (f m) =
    (g.node? m).map fun n => ⟨f n.id, n.identity, n.kind, n.dependencies.map f⟩ := by
  unfold node? rename
  rw [List.find?_map]
  congr 1
  have same : ∀ nodes : List Node, (∀ n ∈ nodes, n ∈ g.nodes) →
      nodes.find? (fun n => f n.id = f m) = nodes.find? fun n => n.id = m := by
    intro nodes inside
    induction nodes with
    | nil => rfl
    | cons n rest ih =>
      have here : f n.id = f m ↔ n.id = m := by
        refine ⟨apart n.id ?_ m member, fun same => same ▸ rfl⟩
        exact List.mem_map_of_mem (inside n List.mem_cons_self)
      simp only [List.find?_cons, here]
      rw [ih fun other held => inside other (List.mem_cons_of_mem n held)]
  exact same g.nodes fun _ held => held

theorem identity_rename (member : m ∈ g.modules) : (g.rename f).identity (f m) = g.identity m := by
  rw [identity, identity, node?_rename apart member, Option.map_map]
  rfl

theorem isBinary_rename (member : m ∈ g.modules) : (g.rename f).isBinary (f m) = g.isBinary m := by
  rw [isBinary, isBinary, node?_rename apart member, Option.any_map]

theorem dependencies_rename (member : m ∈ g.modules) :
    (g.rename f).dependencies (f m) = (g.dependencies m).map f := by
  rw [dependencies, dependencies, node?_rename apart member, Option.map_map]
  cases g.node? m <;> rfl

theorem contains_rename (member : next ∈ g.modules) (inside : ∀ m ∈ seen, m ∈ g.modules) :
    (seen.map f).contains (f next) = seen.contains next := by
  rw [Bool.eq_iff_iff, List.contains_iff_mem, List.contains_iff_mem]
  refine ⟨fun held => ?_, List.mem_map_of_mem⟩
  obtain ⟨m, there, same⟩ := List.mem_map.mp held
  exact apart m (inside m there) next member same ▸ there

theorem dropWhile_rename (member : next ∈ g.modules) (inside : ∀ m ∈ path, m ∈ g.modules) :
    (path.map f).dropWhile (· ≠ f next) = (path.dropWhile (· ≠ next)).map f := by
  induction path with
  | nil => rfl
  | cons m rest ih =>
    obtain ⟨here, others⟩ := List.forall_mem_cons.mp inside
    have same : f m = f next ↔ m = next := ⟨apart m here next member, fun same => same ▸ rfl⟩
    rw [List.map_cons, List.dropWhile_cons, List.dropWhile_cons]
    by_cases found : m = next
    · simp [found]
    · rw [if_pos (by simpa [same] using found), if_pos (by simpa using found), ih others]

end Numbers

/-! ## The search -/

/-- A part of the search goes the same way under other numbers. -/
inductive Mirrors (f : ModuleId → ModuleId) (g : ModuleGraph) :
    Except (List ModuleId) (List ModuleId) → Except (List ModuleId) (List ModuleId) → Prop where
  | seen {seen : List ModuleId} (inside : ∀ m ∈ seen, m ∈ g.modules) :
      Mirrors f g (.ok seen) (.ok (seen.map f))
  | cycle {cycle : List ModuleId} : Mirrors f g (.error cycle) (.error (cycle.map f))

theorem foldlM_mirrors {todo : List ModuleId}
    {step step' : List ModuleId → ModuleId → Except (List ModuleId) (List ModuleId)}
    (each : ∀ m ∈ todo, ∀ seen, (∀ x ∈ seen, x ∈ g.modules) →
      Mirrors f g (step seen m) (step' (seen.map f) (f m)))
    (inside : ∀ m ∈ seen, m ∈ g.modules) :
    Mirrors f g (todo.foldlM step seen) ((todo.map f).foldlM step' (seen.map f)) := by
  induction todo generalizing seen with
  | nil => exact .seen inside
  | cons m rest ih =>
    have first := each m List.mem_cons_self seen inside
    rw [List.map_cons, List.foldlM_cons, List.foldlM_cons]
    generalize step seen m = x, step' (seen.map f) (f m) = x' at first
    cases first with
    | seen inside' => exact ih (fun other held => each other (List.mem_cons_of_mem m held)) inside'
    | cycle => exact .cycle

section Search

variable (apart : g.Separates f)
  (closed : ∀ m ∈ g.modules, ∀ target ∈ g.dependencies m, target ∈ g.modules)

include apart closed

theorem searchBinary_mirrors (member : m ∈ g.modules) (waiting : ∀ m ∈ path, m ∈ g.modules)
    (inside : ∀ m ∈ seen, m ∈ g.modules) :
    Mirrors f g (g.searchBinary depth path m seen)
      ((g.rename f).searchBinary depth (path.map f) (f m) (seen.map f)) := by
  induction depth generalizing path m seen with
  | zero => exact .seen inside
  | succ depth ih =>
    have longer : ∀ x ∈ path ++ [m], x ∈ g.modules := by
      simpa [or_imp, forall_and] using ⟨waiting, member⟩
    rw [searchBinary_succ, searchBinary_succ, dependencies_rename apart member, ← List.map_cons]
    refine foldlM_mirrors (fun next depends seen inside => ?_)
      (List.forall_mem_cons.mpr ⟨member, inside⟩)
    have here := closed m member next depends
    have whole : path.map f ++ [f m] = (path ++ [m]).map f := by simp
    unfold turn
    rw [whole, isBinary_rename apart here, contains_rename apart here inside,
      contains_rename apart here longer, dropWhile_rename apart here longer]
    split
    · exact .seen inside
    · split
      · exact ih here longer inside
      · split
        · rw [← List.map_singleton, ← List.map_append]
          exact .cycle
        · exact .seen inside

/-- Under other numbers the same cycle is found, if there is one. -/
theorem binaryCycle?_rename : (g.rename f).binaryCycle? = g.binaryCycle?.map (List.map f) := by
  have mirrors : Mirrors f g g.searchAll (g.rename f).searchAll := by
    unfold searchAll
    rw [modules_rename, size_rename]
    refine foldlM_mirrors (fun m member seen inside => ?_) (by simp)
    rw [isBinary_rename apart member, contains_rename apart member inside]
    split
    · exact .seen inside
    · exact searchBinary_mirrors apart closed member (by simp) inside
  rw [binaryCycle?_eq, binaryCycle?_eq]
  generalize g.searchAll = x, (g.rename f).searchAll = x' at mirrors
  cases mirrors <;> rfl

end Search

/-- The cycle that is found bears the same identities. -/
theorem identities_rename (apart : g.Separates f) {cycle : List ModuleId}
    (found : g.binaryCycle? = some cycle) :
    (cycle.map f).map (g.rename f).identity = cycle.map g.identity := by
  rw [List.map_map]
  exact List.map_congr_left fun m member =>
    identity_rename apart ((binaryCycle_of_found found).inside m member)

end MixedModules.ModuleGraph
