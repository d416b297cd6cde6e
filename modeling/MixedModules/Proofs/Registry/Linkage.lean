import Mathlib.Data.List.Perm.Subperm
import Mathlib.Logic.Relation
import MixedModules.Proofs.Registry.Growth

/-! Linked modules and their components.

What a linked module depends on is linked too, so later builds add nothing below it.
Its component holds exactly the modules that depend on it and on which it depends,
and it stays in this component for good. -/
namespace MixedModules.Registry
open Relation

variable {κ : Type} {r r' : Registry κ} {may : ModuleId → Prop} {m target : ModuleId}

def Linked (r : Registry κ) (m : ModuleId) : Prop := ∃ i, r.get? m = some i ∧ i.isLinked = true

theorem linked_of_home {i : Instance κ} {e : EnvironmentId} (known : r.get? m = some i)
    (home : i.environment = some e) : r.Linked m :=
  ⟨i, known, by simp [Instance.isLinked, home]⟩

/-- The component of a module. -/
def componentOf? (r : Registry κ) (m : ModuleId) : Option ComponentId :=
  (r.get? m).bind (·.component)

/-- The progress of a module. -/
def progressOf? (r : Registry κ) (m : ModuleId) : Option Progress := (r.get? m).map (·.progress)

/-- Two modules depend on each other, directly or through others. -/
def Mutual (r : Registry κ) (m other : ModuleId) : Prop :=
  ReflTransGen r.DependsOn m other ∧ ReflTransGen r.DependsOn other m

/-- The members of a component are the modules that refer to it, and they are what
depends on each other. -/
structure Grouped (r : Registry κ) : Prop where
  members : ∀ m c, r.componentOf? m = some c ↔
    ∃ component, r.component? c = some component ∧ m ∈ component.members
  strong : ∀ m other c c', r.componentOf? m = some c → r.componentOf? other = some c' →
    (c = c' ↔ r.Mutual m other)

/-- Linked modules have their dependencies, which are linked, and their components. -/
structure Linkage (r : Registry κ) : Prop where
  closed : ∀ m, r.Linked m → (∃ dependencies, r.Resolved m dependencies) ∧
    ∀ target, r.DependsOn m target → r.Linked target
  placed : ∀ m, r.Linked m ↔ ∃ c, r.componentOf? m = some c
  grouped : r.Grouped

theorem progressOf?_eq_some_iff {progress : Progress} :
    r.progressOf? m = some progress ↔ ∃ i, r.get? m = some i ∧ i.progress = progress := by
  simp [progressOf?]

theorem progressOf?_setProgress (r : Registry κ) (m : ModuleId) (progress : Progress)
    (other : ModuleId) : (r.setProgress m progress).progressOf? other =
      if m = other then (r.progressOf? other).map fun _ => progress else r.progressOf? other := by
  rw [progressOf?, progressOf?, setProgress, get?_modify]
  split <;> cases r.get? other <;> rfl

@[simp] theorem progressOf?_release (r : Registry κ) (c : ComponentId) (m : ModuleId) :
    (r.release c).progressOf? m = r.progressOf? m := by
  unfold release
  cases r.component? c <;> rfl

/-- No more modules can be named than are registered. -/
theorem length_le_size {ms : List ModuleId} (distinct : ms.Nodup)
    (registered : ∀ m ∈ ms, m.index < r.size) : ms.length ≤ r.size := by
  have inside : ms ⊆ (List.range r.size).map ModuleId.mk := fun m member =>
    List.mem_map.mpr ⟨m.index, List.mem_range.mpr (registered m member), rfl⟩
  simpa using (List.subperm_of_subset distinct inside).length_le

theorem linkage_empty : (empty : Registry κ).Linkage := by
  have none : ∀ m, (empty : Registry κ).get? m = none := fun _ => rfl
  have absent : ∀ c, (empty : Registry κ).component? c = Option.none := fun _ => rfl
  refine ⟨fun m linked => ?_, fun m => ?_, fun m c => ?_, fun m other c c' held => ?_⟩
  · obtain ⟨i, known, _⟩ := linked
    cases (none m).symm.trans known
  · simp [Linked, componentOf?, none]
  · simp [componentOf?, none, absent]
  · simp [componentOf?, none] at held

/-- Where two relations agree on a closed set, they reach the same from it. -/
theorem reach_congr {α : Type} {one other : α → α → Prop} {inside : α → Prop}
    (same : ∀ a b, inside a → (one a b ↔ other a b)) (closed : ∀ a b, inside a → one a b → inside b)
    {a b : α} (start : inside a) : ReflTransGen one a b ↔ ReflTransGen other a b := by
  constructor
  · intro way
    have both : ReflTransGen other a b ∧ inside b := by
      induction way with
      | refl => exact ⟨.refl, start⟩
      | tail _ edge ih => exact ⟨ih.1.tail ((same _ _ ih.2).mp edge), closed _ _ ih.2 edge⟩
    exact both.1
  · intro way
    have both : ReflTransGen one a b ∧ inside b := by
      induction way with
      | refl => exact ⟨.refl, start⟩
      | tail _ edge ih =>
        have edge := (same _ _ ih.2).mpr edge
        exact ⟨ih.1.tail edge, closed _ _ ih.2 edge⟩
    exact both.1

private theorem hasMember_congr {one other : Option Component}
    (same : one.map (·.members) = other.map (·.members)) :
    (∃ component, one = some component ∧ m ∈ component.members) ↔
      ∃ component, other = some component ∧ m ∈ component.members := by
  cases one with
  | none => cases other with
    | none => rfl
    | some component => cases same
  | some component => cases other with
    | none => cases same
    | some component' =>
      have same : component.members = component'.members := Option.some.inj same
      simp [same]

namespace Linkage

/-- What a linked module depends on in the end is linked. -/
theorem reach (linkage : r.Linkage) (linked : r.Linked m) (way : ReflTransGen r.DependsOn m target) :
    r.Linked target := by
  induction way with
  | refl => exact linked
  | tail _ edge ih => exact (linkage.closed _ ih).2 _ edge

/-- What holds of a member of a component, and of each member on which one with it depends,
holds of all members. -/
theorem spread {P : ModuleId → Prop} {c : ComponentId} (linkage : r.Linkage)
    (place : r.componentOf? m = some c) (start : P m)
    (step : ∀ x target, P x → r.DependsOn x target → r.componentOf? target = some c → P target) :
    ∀ x, r.componentOf? x = some c → P x := by
  intro x shares
  -- The way to the other member stays in the component.
  obtain ⟨there, back⟩ := (linkage.grouped.strong m x c c place shares).mp rfl
  clear shares
  induction there with
  | refl => exact start
  | @tail b target way edge ih =>
    have linked := linkage.reach ((linkage.placed m).mpr ⟨c, place⟩) (way.tail edge)
    obtain ⟨c', placed⟩ := (linkage.placed target).mp linked
    obtain rfl := (linkage.grouped.strong m target c c' place placed).mpr ⟨way.tail edge, back⟩
    exact step b target (ih (.head edge back)) edge placed

/-- A change that leaves linked modules with their dependencies and components, and
links no others, leaves the linkage. -/
theorem transfer (linkage : r.Linkage) (linked : ∀ m, r'.Linked m ↔ r.Linked m)
    (resolved : ∀ m dependencies, r.Linked m → r.Resolved m dependencies →
      r'.Resolved m dependencies)
    (placed : ∀ m, r'.componentOf? m = r.componentOf? m)
    (members : ∀ c, (r'.component? c).map (·.members) = (r.component? c).map (·.members)) :
    r'.Linkage := by
  have depends : ∀ m target, r.Linked m → (r'.DependsOn m target ↔ r.DependsOn m target) := by
    intro m target held
    obtain ⟨⟨dependencies, there⟩, _⟩ := linkage.closed m held
    exact (resolved m _ held there).dependsOn_iff.trans there.dependsOn_iff.symm
  have reach : ∀ m target, r.Linked m →
      (ReflTransGen r'.DependsOn m target ↔ ReflTransGen r.DependsOn m target) := fun m target held =>
    (reach_congr (fun a b inside => (depends a b inside).symm)
      (fun a b inside => (linkage.closed a inside).2 b) held).symm
  refine ⟨fun m held => ?_, fun m => ?_, fun m c => ?_, fun m other c c' one another => ?_⟩
  · have held := (linked m).mp held
    obtain ⟨⟨dependencies, there⟩, closed⟩ := linkage.closed m held
    refine ⟨⟨dependencies, resolved m _ held there⟩, fun target edge => ?_⟩
    exact (linked target).mpr (closed target ((depends m target held).mp edge))
  · rw [linked, placed]
    exact linkage.placed m
  · rw [placed, linkage.grouped.members, hasMember_congr (members c)]
  · rw [placed] at one another
    rw [linkage.grouped.strong m other c c' one another]
    have here := (linkage.placed m).mpr ⟨c, one⟩
    have there := (linkage.placed other).mpr ⟨c', another⟩
    exact and_congr (reach m other here).symm (reach other m there).symm

end Linkage

namespace Grows

theorem linked_iff (grows : r.Grows may r') : r'.Linked m ↔ r.Linked m := by
  constructor
  · rintro ⟨i, known', linked⟩
    cases known : r.get? m with
    | none =>
      have unlinked := (grows.added m i known known').1
      rw [Instance.isLinked, unlinked] at linked
      cases linked
    | some j =>
      obtain ⟨_, same, _⟩ := grows.kept m j known
      rw [known'] at same
      cases same
      exact ⟨j, known, linked⟩
  · rintro ⟨i, known, linked⟩
    obtain ⟨_, known', _⟩ := grows.kept m i known
    exact ⟨_, known', linked⟩

theorem componentOf? (grows : r.Grows may r') : r'.componentOf? m = r.componentOf? m := by
  unfold Registry.componentOf?
  cases known : r.get? m with
  | none =>
    cases known' : r'.get? m with
    | none => rfl
    | some i => exact (grows.added m i known known').2.1
  | some i =>
    obtain ⟨_, known', _⟩ := grows.kept m i known
    rw [known']
    rfl

theorem component? (grows : r.Grows may r') (c : ComponentId) :
    r'.component? c = r.component? c := by
  unfold Registry.component?
  rw [grows.components]

theorem progressOf? (grows : r.Grows may r') (m : ModuleId) :
    r'.progressOf? m = r.progressOf? m ∨
      r.get? m = none ∧ r'.progressOf? m = some .notStarted := by
  unfold Registry.progressOf?
  cases known : r.get? m with
  | none =>
    cases known' : r'.get? m with
    | none => exact .inl rfl
    | some i => exact .inr ⟨rfl, congrArg some (grows.added m i known known').2.2⟩
  | some i =>
    obtain ⟨_, known', _⟩ := grows.kept m i known
    rw [known']
    exact .inl rfl

end Grows

namespace Linkage

/-- Loading leaves the linkage. -/
theorem grows (linkage : r.Linkage) (grows : r.Grows may r') : r'.Linkage :=
  linkage.transfer (fun _ => grows.linked_iff) (fun _ _ _ resolved => resolved.grows grows)
    (fun _ => grows.componentOf?) fun c => by rw [grows.component?]

end Linkage

/-! ## Changes of progress and of claims -/

/-- Modules and components are the same up to progress and claims. -/
structure SameModules (r r' : Registry κ) : Prop where
  modules : ∀ m, ∃ progress : Progress → Progress,
    r'.get? m = (r.get? m).map fun i => { i with progress := progress i.progress }
  components : ∀ c, (r'.component? c).map (·.members) = (r.component? c).map (·.members)

namespace SameModules

theorem dependsOn_iff (same : r.SameModules r') :
    r'.DependsOn m target ↔ r.DependsOn m target := by
  obtain ⟨progress, change⟩ := same.modules m
  unfold DependsOn
  rw [change]
  cases r.get? m with
  | none => simp
  | some i => simp [Instance.targets]

theorem resolved_iff (same : r.SameModules r') {dependencies : Dependencies} :
    r'.Resolved m dependencies ↔ r.Resolved m dependencies := by
  obtain ⟨progress, change⟩ := same.modules m
  unfold Resolved
  rw [change]
  cases r.get? m with
  | none => simp
  | some i => simp

theorem linked_iff (same : r.SameModules r') : r'.Linked m ↔ r.Linked m := by
  obtain ⟨progress, change⟩ := same.modules m
  unfold Linked
  rw [change]
  cases r.get? m with
  | none => simp
  | some i => simp [Instance.isLinked]

theorem componentOf? (same : r.SameModules r') : r'.componentOf? m = r.componentOf? m := by
  obtain ⟨progress, change⟩ := same.modules m
  unfold Registry.componentOf?
  rw [change]
  cases r.get? m <;> rfl

theorem linkage (same : r.SameModules r') (linkage : r.Linkage) : r'.Linkage :=
  linkage.transfer (fun _ => same.linked_iff) (fun _ _ _ resolved => same.resolved_iff.mpr resolved)
    (fun _ => same.componentOf?) same.components

theorem stocked (same : r.SameModules r') (stocked : r.Stocked) : r'.Stocked := by
  refine stocked.transfer (fun m i known => ?_) fun m i known => ?_
  · obtain ⟨progress, change⟩ := same.modules m
    rw [known] at change
    obtain ⟨j, before, rfl⟩ := Option.map_eq_some_iff.mp change.symm
    exact ⟨j, before, rfl, rfl⟩
  · obtain ⟨progress, change⟩ := same.modules m
    rw [known] at change
    exact ⟨_, change⟩

end SameModules
end MixedModules.Registry
