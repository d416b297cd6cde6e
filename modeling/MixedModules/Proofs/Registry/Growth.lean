import MixedModules.Proofs.Record.WellFormed
import MixedModules.Registry.Loading

/-! What loading does to a registry, whether it succeeds or not.

Modules are added and never changed, except that a module gets its dependencies once.
All else of a module, its component and what was entered belong to later stages. -/
namespace MixedModules

namespace Registry

variable {κ : Type} {r r' r'' : Registry κ} {may : ModuleId → Prop}

/-- Every record passed its check, and every module that has its dependencies has one
for each specifier it asks for. -/
structure Stocked (r : Registry κ) : Prop where
  checked : ∀ m i, r.get? m = some i → i.record.validate = .ok ()
  resolved : ∀ m i dependencies, r.get? m = some i → i.dependencies = some dependencies →
    dependencies.map (·.1) = i.record.requested ∧ ∀ d ∈ dependencies, ∃ j, r.get? d.2 = some j

/-- One of the specifiers of a module resolved to another. -/
def DependsOn (r : Registry κ) (m target : ModuleId) : Prop :=
  ∃ i, r.get? m = some i ∧ target ∈ i.targets

/-- The specifiers of a module resolved to given modules. -/
def Resolved (r : Registry κ) (m : ModuleId) (dependencies : Dependencies) : Prop :=
  ∃ i, r.get? m = some i ∧ i.dependencies = some dependencies

/-- Modules are added, and those in `may` can get their dependencies. -/
structure Grows (may : ModuleId → Prop) (r r' : Registry κ) : Prop where
  kept : ∀ m i, r.get? m = some i → ∃ dependencies,
    r'.get? m = some { i with dependencies } ∧
      (dependencies = i.dependencies ∨ may m ∧ i.dependencies = none)
  added : ∀ m i, r.get? m = none → r'.get? m = some i →
    i.environment = none ∧ i.component = none ∧ i.progress = .notStarted
  components : r'.components = r.components
  entered : r'.entered = r.entered

namespace Grows

theorem refl (r : Registry κ) : r.Grows may r :=
  ⟨fun _ i known => ⟨i.dependencies, known, .inl rfl⟩,
    fun _ _ absent known => absurd known (by simp [absent]), rfl, rfl⟩

theorem mono {other : ModuleId → Prop} (grows : r.Grows may r') (wider : ∀ m, may m → other m) :
    r.Grows other r' := by
  refine ⟨fun m i known => ?_, grows.added, grows.components, grows.entered⟩
  obtain ⟨dependencies, known', change⟩ := grows.kept m i known
  exact ⟨dependencies, known', change.imp_right fun ⟨allowed, absent⟩ => ⟨wider m allowed, absent⟩⟩

theorem trans (first : r.Grows may r') (second : r'.Grows may r'') : r.Grows may r'' := by
  refine ⟨fun m i known => ?_, fun m i absent known => ?_,
    second.components.trans first.components, second.entered.trans first.entered⟩
  · obtain ⟨dependencies, known', change⟩ := first.kept m i known
    obtain ⟨dependencies', known'', change'⟩ := second.kept m _ known'
    refine ⟨dependencies', known'', ?_⟩
    rcases change' with rfl | ⟨allowed, absent⟩
    · exact change
    · rcases change with rfl | ⟨_, absent'⟩
      · exact .inr ⟨allowed, absent⟩
      · exact .inr ⟨allowed, absent'⟩
  · cases known' : r'.get? m with
    | none => exact second.added m i known' known
    | some j =>
      obtain ⟨environment, component, progress⟩ := first.added m j absent known'
      obtain ⟨_, known'', _⟩ := second.kept m j known'
      rw [known] at known''
      cases known''
      exact ⟨environment, component, progress⟩

/-- What a module has resolved its specifiers to stays. -/
theorem dependencies {m : ModuleId} {i : Instance κ} {dependencies : Dependencies}
    (grows : r.Grows may r') (known : r.get? m = some i)
    (resolved : i.dependencies = some dependencies) : r'.get? m = some i := by
  obtain ⟨_, known', rfl | ⟨_, absent⟩⟩ := grows.kept m i known
  · exact known'
  · rw [resolved] at absent
    cases absent

theorem registered {m : ModuleId} (grows : r.Grows may r') (known : ∃ i, r.get? m = some i) :
    ∃ i, r'.get? m = some i := by
  obtain ⟨i, known⟩ := known
  obtain ⟨_, known', _⟩ := grows.kept m i known
  exact ⟨_, known'⟩

/-- A module that may not change stays as it was. -/
theorem unchanged {m : ModuleId} {i : Instance κ} (grows : r.Grows may r') (not : ¬ may m)
    (known : r.get? m = some i) : r'.get? m = some i := by
  obtain ⟨_, known', rfl | ⟨allowed, _⟩⟩ := grows.kept m i known
  · exact known'
  · exact absurd allowed not

end Grows

namespace Resolved

variable {m target : ModuleId} {dependencies : Dependencies}

theorem grows (resolved : r.Resolved m dependencies) (grows : r.Grows may r') :
    r'.Resolved m dependencies := by
  obtain ⟨i, known, resolved⟩ := resolved
  exact ⟨i, grows.dependencies known resolved, resolved⟩

theorem dependsOn_iff (resolved : r.Resolved m dependencies) :
    r.DependsOn m target ↔ target ∈ dependencies.map (·.2) := by
  obtain ⟨i, known, resolved⟩ := resolved
  simp [DependsOn, known, Instance.targets, resolved]

/-- A module that has its dependencies keeps depending on the same modules. -/
theorem dependsOn_grows (resolved : r.Resolved m dependencies) (grows : r.Grows may r') :
    r'.DependsOn m target ↔ r.DependsOn m target :=
  (resolved.grows grows).dependsOn_iff.trans resolved.dependsOn_iff.symm

end Resolved

theorem grows_register (r : Registry κ) (identity : String) (record : Record κ) :
    r.Grows may (r.register identity record).2 := by
  refine ⟨fun m i known => ⟨i.dependencies, ?_, .inl rfl⟩, fun m i absent known => ?_, rfl, rfl⟩
  · have inside := lt_size_of_get? known
    rw [get?_register, if_neg (by omega), known]
  · rw [get?_register, absent] at known
    split at known
    · cases known
      exact ⟨rfl, rfl, rfl⟩
    · cases known

theorem Stocked.register (stocked : r.Stocked) {identity : String} {record : Record κ}
    (checked : record.validate = .ok ()) : (r.register identity record).2.Stocked := by
  have grows : r.Grows (fun _ => False) (r.register identity record).2 := grows_register r _ _
  constructor
  · intro m i known
    rw [get?_register] at known
    split at known
    · cases known
      exact checked
    · exact stocked.checked m i known
  · intro m i dependencies known resolved
    rw [get?_register] at known
    split at known
    · cases known
      cases resolved
    · obtain ⟨names, targets⟩ := stocked.resolved m i dependencies known resolved
      exact ⟨names, fun d member => grows.registered (targets d member)⟩

/-- What was stocked stays so while modules keep their records and dependencies. -/
theorem Stocked.transfer (stocked : r.Stocked)
    (from_ : ∀ m i, r'.get? m = some i → ∃ before, r.get? m = some before ∧
      i.record = before.record ∧ i.dependencies = before.dependencies)
    (kept : ∀ m i, r.get? m = some i → ∃ after, r'.get? m = some after) : r'.Stocked := by
  constructor
  · intro m i known
    obtain ⟨before, known', record, _⟩ := from_ m i known
    rw [record]
    exact stocked.checked m before known'
  · intro m i dependencies known resolved
    obtain ⟨before, known', record, same⟩ := from_ m i known
    obtain ⟨names, targets⟩ := stocked.resolved m before dependencies known' (same ▸ resolved)
    refine ⟨by rw [names, record], fun d member => ?_⟩
    obtain ⟨j, there⟩ := targets d member
    exact kept d.2 j there

theorem get?_setDependencies (r : Registry κ) (m other : ModuleId) (dependencies : Dependencies) :
    (r.setDependencies m dependencies).get? other =
      if m = other then (r.get? other).map fun i =>
        { i with dependencies := i.dependencies <|> some dependencies }
      else r.get? other :=
  get?_modify r m other _

theorem grows_setDependencies (r : Registry κ) (m : ModuleId) (dependencies : Dependencies) :
    r.Grows (· = m) (r.setDependencies m dependencies) := by
  refine ⟨fun other i known => ?_, fun other i absent known => ?_, rfl, rfl⟩
  · by_cases same : m = other
    · refine ⟨i.dependencies <|> some dependencies, by simp [get?_setDependencies, same, known], ?_⟩
      cases resolved : i.dependencies with
      | none => exact .inr ⟨same.symm, rfl⟩
      | some already => exact .inl rfl
    · exact ⟨i.dependencies, by simp [get?_setDependencies, same, known], .inl rfl⟩
  · rw [get?_setDependencies, absent] at known
    simp at known

theorem Stocked.setDependencies (stocked : r.Stocked) {m : ModuleId} {i : Instance κ}
    {dependencies : Dependencies} (known : r.get? m = some i)
    (names : dependencies.map (·.1) = i.record.requested)
    (targets : ∀ d ∈ dependencies, ∃ j, r.get? d.2 = some j) :
    (r.setDependencies m dependencies).Stocked := by
  have grows := grows_setDependencies r m dependencies
  constructor
  · intro other j known'
    rw [get?_setDependencies] at known'
    by_cases same : m = other
    · subst same
      simp only [↓reduceIte, known, Option.map_some, Option.some.injEq] at known'
      subst known'
      exact stocked.checked m i known
    · exact stocked.checked other j (by simpa [same] using known')
  · intro other j already known' resolved
    rw [get?_setDependencies] at known'
    by_cases same : m = other
    · subst same
      simp only [↓reduceIte, known, Option.map_some, Option.some.injEq] at known'
      subst known'
      cases before : i.dependencies with
      | none =>
        simp only [before, Option.orElse_eq_orElse] at resolved
        cases resolved
        exact ⟨names, fun d member => grows.registered (targets d member)⟩
      | some held =>
        simp only [before, Option.orElse_eq_orElse] at resolved
        cases resolved
        obtain ⟨names', targets'⟩ := stocked.resolved m i _ known before
        exact ⟨names', fun d member => grows.registered (targets' d member)⟩
    · obtain ⟨names', targets'⟩ := stocked.resolved other j already (by simpa [same] using known')
        resolved
      exact ⟨names', fun d member => grows.registered (targets' d member)⟩

end Registry
end MixedModules
