import MixedModules.Proofs.History.Orderly
import MixedModules.Proofs.Link.Wiring

/-! Linked binary modules never wait for each other.

A graph in which binary modules depend on each other in a circle is not linked, and what a
linked module depends on was in the graph too. So whatever is linked later, each circle of
dependencies among linked modules goes through a script module. -/
namespace MixedModules
open Relation

variable {κ : Type}

namespace Registry

variable {r r' : Registry κ} {g : ModuleGraph} {m target : ModuleId}

def Binary (r : Registry κ) (m : ModuleId) : Prop := ∃ i, r.get? m = some i ∧ i.kind = .binary

/-- A dependency between binary modules. -/
def BinaryEdge (r : Registry κ) (m target : ModuleId) : Prop :=
  r.Binary m ∧ r.Binary target ∧ r.DependsOn m target

/-- No linked module comes back to itself through binary modules alone. -/
def Untangled (r : Registry κ) : Prop := ∀ m, r.Linked m → ¬ TransGen r.BinaryEdge m m

/-- Linked modules that depend on each other in a circle, from `target` to `m` and back. -/
structure Circle (r : Registry κ) (m target : ModuleId) (way : List ModuleId) : Prop where
  once : way.Nodup
  linked : ∀ x ∈ way, r.Linked x
  chain : way.IsChain r.DependsOn
  first : way.head? = some target
  last : way.getLast? = some m
  back : r.DependsOn m target

namespace Circle

variable {way : List ModuleId}

theorem leads {edge : ModuleId → ModuleId → Prop} (circle : r.Circle m target way)
    (chain : way.IsChain edge) : ReflTransGen edge target m := by
  obtain ⟨rest, rfl⟩ := List.head?_eq_some_iff.mp circle.first
  refine List.relationReflTransGen_of_exists_isChain_cons rest chain ?_
  exact Option.some.inj ((List.getLast?_eq_some_getLast _).symm.trans circle.last)

/-- The modules of a circle are in one component. -/
theorem componentOf?_eq (circle : r.Circle m target way) (linkage : r.Linkage) :
    r.componentOf? m = r.componentOf? target := by
  obtain ⟨c, place⟩ := (linkage.placed m).mp (circle.linked m (List.mem_of_getLast? circle.last))
  obtain ⟨c', place'⟩ := (linkage.placed target).mp
    (circle.linked target (List.mem_of_mem_head? circle.first))
  have both : r.Mutual m target := ⟨.single circle.back, circle.leads circle.chain⟩
  rw [place, place', (linkage.grouped.strong m target c c' place place').mpr both]

/-- It goes through a script module. -/
theorem script (circle : r.Circle m target way) (untangled : r.Untangled) :
    ∃ x ∈ way, ∃ i, r.get? x = some i ∧ i.kind = .script := by
  by_contra none
  have binary : ∀ x ∈ way, r.Binary x := by
    intro x member
    obtain ⟨i, known, _⟩ := circle.linked x member
    refine ⟨i, known, ?_⟩
    cases kind : i.kind with
    | binary => rfl
    | script => exact absurd ⟨x, member, i, known, kind⟩ none
  have ends := List.mem_of_getLast? circle.last
  have round : ReflTransGen r.BinaryEdge target m :=
    circle.leads (circle.chain.imp_of_mem_imp fun x y here there depends =>
      ⟨binary x here, binary y there, depends⟩)
  exact untangled m (circle.linked m ends) (.head' ⟨binary m ends,
    binary target (List.mem_of_mem_head? circle.first), circle.back⟩ round)

end Circle

end Registry

namespace ModuleGraph.Faithful

variable {r : Registry κ} {g : ModuleGraph} {m target : ModuleId}

theorem isBinary (faithful : g.Faithful r) (member : m ∈ g.modules) (binary : r.Binary m) :
    g.isBinary m = true := by
  obtain ⟨n, held, rfl⟩ := List.mem_map.mp member
  obtain ⟨i, known, _, kind⟩ := faithful.drawn.shown n held
  obtain ⟨j, known', binary⟩ := binary
  cases known.symm.trans known'
  simp [ModuleGraph.isBinary, node?_of_mem faithful.drawn.distinct held, kind, binary]

theorem binaryEdge (faithful : g.Faithful r) (member : m ∈ g.modules)
    (edge : r.BinaryEdge m target) : g.BinaryEdge m target ∧ target ∈ g.modules := by
  obtain ⟨here, there, depends⟩ := edge
  have inside := faithful.closed member depends
  exact ⟨⟨faithful.isBinary member here, faithful.isBinary inside there,
    (faithful.mem_dependencies member).mpr depends⟩, inside⟩

/-- A way through binary modules is one in the graph. -/
theorem binaryWay (faithful : g.Faithful r) (member : m ∈ g.modules)
    (way : TransGen r.BinaryEdge m target) : TransGen g.BinaryEdge m target ∧ target ∈ g.modules := by
  induction way with
  | single edge =>
    obtain ⟨edge, inside⟩ := faithful.binaryEdge member edge
    exact ⟨.single edge, inside⟩
  | tail _ edge ih =>
    obtain ⟨way, inside⟩ := ih
    obtain ⟨edge, inside'⟩ := faithful.binaryEdge inside edge
    exact ⟨way.tail edge, inside'⟩

end ModuleGraph.Faithful

namespace Registry

variable {r r' : Registry κ} {m target : ModuleId}

/-- What linked modules depend on they have depended on before. -/
theorem Retains.binaryWay (retains : r.Retains r') (linkage : r.Linkage) (linked : r.Linked m)
    (way : TransGen r'.BinaryEdge m target) : TransGen r.BinaryEdge m target ∧ r.Linked target := by
  have binary : ∀ {x}, r.Linked x → r'.Binary x → r.Binary x := by
    rintro x linked ⟨i, known, binary⟩
    obtain ⟨j, there, _⟩ := id linked
    obtain ⟨j', known', record, _⟩ := retains x j linked there
    cases known.symm.trans known'
    exact ⟨j, there, by rwa [Instance.kind, ← record]⟩
  have step : ∀ {x y}, r.Linked x → r'.BinaryEdge x y → r.BinaryEdge x y ∧ r.Linked y := by
    rintro x y linked ⟨here, there, i, known, member⟩
    obtain ⟨j, before, _⟩ := id linked
    obtain ⟨j', known', _, dependencies, _⟩ := retains x j linked before
    cases known.symm.trans known'
    have depends : r.DependsOn x y := ⟨j, before, by rwa [Instance.targets, ← dependencies]⟩
    have inside := (linkage.closed x linked).2 y depends
    exact ⟨⟨binary linked here, binary inside there, depends⟩, inside⟩
  induction way with
  | single edge =>
    obtain ⟨edge, inside⟩ := step linked edge
    exact ⟨.single edge, inside⟩
  | tail _ edge ih =>
    obtain ⟨way, inside⟩ := ih
    obtain ⟨edge, inside'⟩ := step inside edge
    exact ⟨way.tail edge, inside'⟩

/-- Where no module is linked anew, none is entangled anew. -/
theorem Untangled.transfer (untangled : r.Untangled) (linkage : r.Linkage) (retains : r.Retains r')
    (same : ∀ m, r'.Linked m → r.Linked m) : r'.Untangled := fun m linked round =>
  untangled m (same m linked) (retains.binaryWay linkage (same m linked) round).1

end Registry

/-- Linking entangles nothing. -/
theorem Links.untangled_link {l l' : Links κ} {g : ModuleGraph} (untangled : l.registry.Untangled)
    (linkage : l.registry.Linkage) (faithful : g.Faithful l.registry)
    (ran : Links.link l g = .ok l') : l'.registry.Untangled := by
  obtain ⟨joined, _⟩ := joined_of_link linkage faithful ran
  intro m linked round
  rcases (joined.linked m).mp linked with before | pending
  · have retains : l.registry.Retains l'.registry := fun x j held known =>
      ⟨j, (joined.kept x (not_mem_pending held)).trans known, rfl, rfl, rfl⟩
    exact untangled m before (retains.binaryWay linkage before round).1
  · cases found : g.binaryCycle? with
    | some cycle =>
      rw [link_of_cycle found] at ran
      cases ran
    | none =>
      have faithful := joined.reassigned.faithful faithful
      exact ModuleGraph.never_back found m (faithful.binaryWay (mem_pending.mp pending).1 round).1

namespace Site

variable {σ ℓ : Type} {setup : Setup κ σ ℓ} {site : Site κ σ ℓ}

/-- An evaluation leaves what linked modules depend on, and links nothing. -/
theorem Orderly.retains_evaluate (orderly : Orderly setup site) (n : Nat) :
    site.registry.Retains (site.make setup (.evaluate n)).registry ∧
      ∀ m, (site.make setup (.evaluate n)).registry.Linked m → site.registry.Linked m := by
  rcases evaluate_cases setup site n with same | ⟨l, outcome, machine, member, ran, made⟩
  · rw [same]
    exact ⟨.refl _, fun _ linked => linked⟩
  · rw [made]
    cases outcome with
    | none => exact ⟨.refl _, fun _ linked => linked⟩
    | some result =>
      have same := ((orderly.evaluated member ran).advanced result rfl).same
      exact ⟨same.retains, fun _ => same.linked_iff.mp⟩

/-- No call entangles linked modules. -/
theorem Orderly.untangled_make (orderly : Orderly setup site) (untangled : site.registry.Untangled)
    (call : Call κ σ ℓ) : (site.make setup call).registry.Untangled := by
  cases call with
  | build entry =>
    obtain ⟨grows, _⟩ := build_yields setup site entry orderly.stocked
    exact untangled.transfer orderly.linkage (grows.retains orderly.linkage)
      fun _ => grows.linked_iff.mp
  | link n =>
    rcases link_cases setup site n with same | ⟨g, links, member, ran, made⟩
    · rwa [same]
    · rw [made]
      exact Links.untangled_link untangled orderly.linkage (orderly.graphs g member) ran
  | evaluate n =>
    obtain ⟨retains, same⟩ := orderly.retains_evaluate n
    exact untangled.transfer orderly.linkage retains same
  | act program => exact untangled
  | restock source => exact untangled

theorem untangled_of_run (setup : Setup κ σ ℓ) (memo : σ) (source : ℓ) (calls : List (Call κ σ ℓ)) :
    ((start memo source).run setup calls).registry.Untangled := by
  induction calls using List.reverseRecOn with
  | nil =>
    rintro m ⟨i, known, _⟩
    cases known
  | append_singleton calls call ih =>
    rw [run, List.foldl_append]
    exact (Orderly.of_run setup memo source calls).untangled_make ih call

end Site
end MixedModules
