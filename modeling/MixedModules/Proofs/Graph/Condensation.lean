import Mathlib.Data.List.Nodup
import MixedModules.Proofs.Graph.Components

/-! The components of a part of a graph, in the order in which they can be evaluated.

The search divides any part of any graph into its strongly connected components. An
edge from one of them to another leads to one that comes earlier in the list, since a
component is complete only when all that its modules depend on is. -/
namespace MixedModules.ModuleGraph

variable {g : ModuleGraph} {within : ModuleId → Bool}

/-- A list of the strongly connected components of a part, over the edges that stay in
it, with those that others depend on first. -/
structure Condensation (g : ModuleGraph) (within : ModuleId → Bool)
    (components : List (List ModuleId)) : Prop where
  inhabited : ∀ c ∈ components, c ≠ []
  /-- No module comes twice, neither in one component nor in two. -/
  once : components.flatten.Nodup
  /-- The components cover the part, and nothing else. -/
  covers : ∀ m, (∃ c ∈ components, m ∈ c) ↔ within m = true
  /-- Two modules come together where each of them reaches the other. -/
  together : ∀ m other, within m = true → within other = true →
    ((∃ c ∈ components, m ∈ c ∧ other ∈ c) ↔ Reaches g within m other ∧ Reaches g within other m)
  /-- What a component depends on comes before it. -/
  upward : ∀ (i j : Nat) a b, components[i]? = some a → components[j]? = some b → a ≠ b →
    ∀ m ∈ a, ∀ next ∈ b, next ∈ g.dependencies m → j < i

/-- A member of two components of a list without repetitions is in one place. -/
theorem index_unique {components : List (List ModuleId)} (once : components.flatten.Nodup)
    {i j : Nat} {a b : List ModuleId} (first : components[i]? = some a)
    (second : components[j]? = some b) {m : ModuleId} (inFirst : m ∈ a) (inSecond : m ∈ b) :
    i = j := by
  have apart := (List.nodup_flatten.mp once).2
  rw [List.pairwise_iff_getElem] at apart
  obtain ⟨inside, rfl⟩ := List.getElem?_eq_some_iff.mp first
  obtain ⟨inside', rfl⟩ := List.getElem?_eq_some_iff.mp second
  rcases Nat.lt_trichotomy i j with less | same | greater
  · exact absurd inSecond (apart i j inside inside' less inFirst)
  · exact same
  · exact absurd inFirst (apart j i inside' inside greater inSecond)

/-- What a component depends on inside the part does not come after it. -/
theorem Search.Sound.before {s : Search} {path : List ModuleId} (sound : s.Sound g within path)
    {i j : Nat} {a b : List ModuleId} (first : s.components[i]? = some a)
    (second : s.components[j]? = some b) {m next : ModuleId} (member : m ∈ a) (there : next ∈ b)
    (edge : Edge g within m next) : j ≤ i := by
  have initial : s.components.take (i + 1) <+: s.components := List.take_prefix _ _
  have early : a ∈ s.components.take (i + 1) :=
    List.mem_of_getElem? ((List.getElem?_take_of_lt (Nat.lt_succ_self i)).trans first)
  have closed := sound.settled _ initial m (List.mem_flatten_of_mem early member) next edge
  obtain ⟨c, listed, held⟩ := List.mem_flatten.mp closed
  obtain ⟨k, known⟩ := List.mem_iff_getElem?.mp listed
  rw [List.getElem?_take] at known
  split at known
  · next small =>
    have same := index_unique sound.complete known second held there
    omega
  · cases known

/-- Whatever part of a graph is searched, its strongly connected components are found,
each after those that it depends on. -/
theorem components_condense (all : ∀ m, within m = true → m ∈ g.modules) :
    g.Condensation within (g.components within) := by
  obtain ⟨last, sound, same, covers⟩ := sound_components all
  rw [← same] at covers ⊢
  have placed : ∀ m, (∃ c ∈ last.components, m ∈ c) ↔ within m = true := fun m => by
    rw [← covers, List.mem_flatten]
  refine ⟨sound.inhabited, sound.complete, placed, fun m other inside _ => ?_,
    fun i j a b first second apart m member next there depends => ?_⟩
  · constructor
    · rintro ⟨c, listed, member, also⟩
      exact (sound.strong c listed m member other).mp also
    · intro both
      obtain ⟨c, listed, member⟩ := (placed m).mpr inside
      exact ⟨c, listed, member, (sound.strong c listed m member other).mpr both⟩
  · have inside := (placed next).mp ⟨b, List.mem_of_getElem? second, there⟩
    have before := sound.before first second member there ⟨depends, inside⟩
    refine Nat.lt_of_le_of_ne before fun same => apart ?_
    subst same
    exact Option.some.inj (first.symm.trans second)

/-- Four modules in a ring, with one more edge back. -/
private def ring : ModuleGraph := ⟨⟨0⟩, [
  ⟨⟨0⟩, "/a", .script, [⟨1⟩]⟩, ⟨⟨1⟩, "/b", .script, [⟨2⟩, ⟨1⟩]⟩,
  ⟨⟨2⟩, "/c", .binary, [⟨1⟩, ⟨3⟩]⟩, ⟨⟨3⟩, "/d", .script, [⟨0⟩]⟩]⟩

/-- All of the ring is one component. Without its last module two are left, and what the
first module depends on comes first. -/
theorem ring_condensed :
    ring.components (fun _ => true) = [[⟨0⟩, ⟨1⟩, ⟨2⟩, ⟨3⟩]] ∧
    (∀ m : ModuleId, decide (m.index < 3) = true → m ∈ ring.modules) ∧
    ring.Condensation (fun m => decide (m.index < 3)) [[⟨1⟩, ⟨2⟩], [⟨0⟩]] := by
  have inside : ∀ m : ModuleId, decide (m.index < 3) = true → m ∈ ring.modules := by
    rintro ⟨n⟩ small
    obtain rfl | rfl | rfl : n = 0 ∨ n = 1 ∨ n = 2 := by
      simp only [decide_eq_true_eq] at small
      omega
    all_goals decide
  exact ⟨by decide, inside, components_condense inside⟩

end MixedModules.ModuleGraph
