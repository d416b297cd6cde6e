import MixedModules.Proofs.Concurrency.Traffic

/-! What one of several traversals does to the modules.

It takes components that are free, changes progress only in components that it holds, and
releases a component when all members are over. The others find what they hold as they left
it, and what was released stays as it is. -/
namespace MixedModules
open Relation

variable {κ : Type}

namespace Registry

variable {r r' : Registry κ} {t : Nat} {m target : ModuleId} {c c' : ComponentId} {x : Claim}

/-! ## What the steps change -/

theorem claimOf?_eq_some_iff :
    r.claimOf? m = some x ↔ ∃ c, r.componentOf? m = some c ∧ r.claim? c = some x :=
  Option.bind_eq_some_iff

theorem holds_iff (place : r.componentOf? m = some c) :
    r.Holds t m ↔ r.claim? c = some (.held t) := by
  rw [Holds, claimOf?, place, Option.bind_some]

theorem SameModules.refl (r : Registry κ) : r.SameModules r :=
  ⟨fun m => ⟨id, by cases r.get? m <;> rfl⟩, fun _ => rfl⟩

theorem sameModules_setComponent {component : Component} (there : r.component? c = some component)
    (claim : Claim) : r.SameModules (r.setComponent c { component with claim }) := by
  refine ⟨fun m => ⟨id, by rw [get?_setComponent]; cases r.get? m <;> rfl⟩, fun c' => ?_⟩
  rw [component?_setComponent]
  split
  · next same =>
    rw [← same, there]
    rfl
  · rfl

theorem claim?_setComponent {component : Component} (there : r.component? c = some component)
    (claim : Claim) (c' : ComponentId) : (r.setComponent c { component with claim }).claim? c' =
      if c = c' then some claim else r.claim? c' := by
  rw [claim?, component?_setComponent]
  split
  · next same =>
    rw [← same, there]
    rfl
  · rfl

theorem sameModules_setProgress (r : Registry κ) (m : ModuleId) (progress : Progress) :
    r.SameModules (r.setProgress m progress) := by
  refine ⟨fun other => ⟨fun before => if m = other then progress else before, ?_⟩, fun _ => rfl⟩
  rw [setProgress, get?_modify]
  split <;> cases r.get? other <;> rfl

theorem sameModules_enter (r : Registry κ) (m : ModuleId) : r.SameModules (r.enter m) :=
  ⟨fun x => ⟨id, by rw [get?_enter]; cases r.get? x <;> rfl⟩, fun _ => rfl⟩

theorem sameModules_sweep (r : Registry κ) (c : ComponentId) (e : EvalError) :
    r.SameModules (r.sweep c e) := by
  unfold sweep
  cases r.component? c with
  | none => exact .refl r
  | some component =>
    refine ⟨fun m => ⟨fun before => if m ∈ component.members then
      if before = .completed then before else .errored e else before, ?_⟩, fun c' => ?_⟩
    · simp only [get?_fail]
      split
      · cases r.get? m with
        | none => rfl
        | some i =>
          simp only [Option.map_some]
          split <;> rfl
      · cases r.get? m <;> rfl
    · simp only [component?_fail]

@[simp] theorem claim?_sweep (r : Registry κ) (c : ComponentId) (e : EvalError) (c' : ComponentId) :
    (r.sweep c e).claim? c' = r.claim? c' := by
  unfold sweep claim?
  cases r.component? c with
  | none => rfl
  | some component => simp only [component?_fail]

/-- A sweep fails the members of a component, save those that are completed. -/
theorem progressOf?_sweep (linkage : r.Linkage) (c : ComponentId) (e : EvalError) (m : ModuleId) :
    (r.sweep c e).progressOf? m = if r.componentOf? m = some c
      then (r.progressOf? m).map fun before => if before = .completed then before else .errored e
      else r.progressOf? m := by
  unfold sweep
  cases there : r.component? c with
  | none =>
    have outside : r.componentOf? m ≠ some c := fun inside => by
      obtain ⟨component, known, _⟩ := (linkage.grouped.members m c).mp inside
      cases there.symm.trans known
    rw [if_neg outside]
  | some component =>
    simp only [progressOf?, get?_fail, ← At.member_iff linkage there]
    split
    · cases r.get? m with
      | none => rfl
      | some i =>
        simp only [Option.map_some]
        split
        · next completed => simp [completed]
        · rfl
    · rfl

theorem sameModules_release (r : Registry κ) (c : ComponentId) : r.SameModules (r.release c) := by
  unfold release
  cases there : r.component? c with
  | none => exact .refl r
  | some component => exact sameModules_setComponent there .released

theorem claim?_release {x : Claim} (held : r.claim? c = some x) (c' : ComponentId) :
    (r.release c).claim? c' = if c = c' then some .released else r.claim? c' := by
  obtain ⟨component, there, _⟩ := Option.map_eq_some_iff.mp held
  rw [release, there]
  exact claim?_setComponent there .released c'

/-! ## What the others see of a step -/

/-- What a traversal does, as the others see it. Only where it holds a component does it change
progress and enter modules, and it gives back what it holds when all is over. -/
structure Guards (t : Nat) (r r' : Registry κ) : Prop where
  same : r.SameModules r'
  progress : ∀ m, ¬ r.Holds t m → r'.progressOf? m = r.progressOf? m
  claims : ∀ c, r'.claim? c = r.claim? c ∨
    r.claim? c = some .free ∧ r'.claim? c = some (.held t) ∨
    r.claim? c = some (.held t) ∧ r'.claim? c = some .released ∧
      ∀ m, r.componentOf? m = some c → r'.Over m
  begun : ∀ m, r.Begun m → r'.Begun m
  entered : r'.entered.events = r.entered.events ∨ ∃ x, r'.entered.events = x :: r.entered.events ∧
    r.Holds t x.module ∧ r.Begun x.module ∧ ∀ y ∈ r.entered.events, y.module ≠ x.module

namespace Guards

theorem refl (t : Nat) (r : Registry κ) : Guards t r r :=
  ⟨.refl r, fun _ _ => rfl, fun _ => .inl rfl, fun _ begun => begun, .inl rfl⟩

theorem acquire {component : Component} (there : r.component? c = some component)
    (free : component.claim = .free) :
    Guards t r (r.setComponent c { component with claim := .held t }) where
  same := sameModules_setComponent there _
  progress _ _ := rfl
  claims c' := by
    rw [claim?_setComponent there]
    split
    · next same =>
      refine .inr (.inl ⟨?_, rfl⟩)
      rw [← same, claim?, there, Option.map_some, free]
    · exact .inl rfl
  begun _ begun := begun
  entered := .inl rfl

theorem setProgress {progress : Progress} (holds : r.Holds t m) (begun : progress ≠ .notStarted) :
    Guards t r (r.setProgress m progress) where
  same := sameModules_setProgress r m progress
  progress x apart := by
    have other : m ≠ x := fun same => apart (same ▸ holds)
    rw [progressOf?_setProgress, if_neg other]
  claims _ := .inl rfl
  begun _ before := before.setProgress begun
  entered := .inl rfl

theorem enter (holds : r.Holds t m) (begun : r.Begun m)
    (fresh : ∀ y ∈ r.entered.events, y.module ≠ m) : Guards t r (r.enter m) where
  same := sameModules_enter r m
  progress _ _ := rfl
  claims _ := .inl rfl
  begun _ before := before
  entered := .inr ⟨⟨m, r.instances⟩, Chronicle.events_add _ _, holds, begun, fresh⟩

theorem sweep {e : EvalError} (linkage : r.Linkage) (held : r.claim? c = some (.held t)) :
    Guards t r (r.sweep c e) where
  same := sameModules_sweep r c e
  progress x apart := by
    rw [progressOf?_sweep linkage, if_neg fun place => apart ((holds_iff place).mpr held)]
  claims c' := .inl (claim?_sweep r c e c')
  begun _ before := before.sweep
  entered := .inl (congrArg Chronicle.events (entered_sweep r c e))

theorem release (held : r.claim? c = some (.held t))
    (ended : ∀ m, r.componentOf? m = some c → r.Over m) : Guards t r (r.release c) where
  same := sameModules_release r c
  progress x _ := progressOf?_release r c x
  claims c' := by
    rw [claim?_release held]
    split
    · next same =>
      subst same
      refine .inr (.inr ⟨held, rfl, fun m place => ?_⟩)
      simpa only [Over, progressOf?_release] using ended m place
    · exact .inl rfl
  begun _ before := before.release
  entered := .inl (congrArg Chronicle.events (entered_release r c))

section Others

variable (guards : Guards t r r') {other : Nat} (apart : other ≠ t)

include guards apart

/-- Another traversal holds what it held. -/
theorem held_iff : r'.claim? c = some (.held other) ↔ r.claim? c = some (.held other) := by
  rcases guards.claims c with same | ⟨free, now⟩ | ⟨held, now, _⟩
  · rw [same]
  · simp [free, now, apart.symm]
  · simp [held, now, apart.symm]

/-- What another traversal holds is as it was. -/
theorem kept (held : r.claim? c = some (.held other)) (place : r.componentOf? m = some c) :
    r'.progressOf? m = r.progressOf? m := by
  refine guards.progress m fun holds => apart ?_
  rw [holds_iff place, held] at holds
  cases holds
  rfl

/-- Another traversal has entered what it had entered. -/
theorem fresh (held : r.claim? c = some (.held other)) (place : r.componentOf? m = some c)
    (before : ∀ x ∈ r.entered.events, x.module ≠ m) : ∀ x ∈ r'.entered.events, x.module ≠ m := by
  rcases guards.entered with same | ⟨x, added, holds, _⟩
  · rwa [same]
  · rw [added]
    refine List.forall_mem_cons.mpr ⟨fun same => apart ?_, before⟩
    rw [same, holds_iff place, held] at holds
    cases holds
    rfl

end Others

/-- What was released stays so. -/
theorem released (guards : Guards t r r') (released : r.claim? c = some .released) :
    r'.claim? c = some .released := by
  rcases guards.claims c with same | ⟨free, _⟩ | ⟨held, _⟩
  · rw [same, released]
  · rw [released] at free
    cases free
  · rw [released] at held
    cases held

theorem claimOf?_released (guards : Guards t r r') (released : r.claimOf? m = some .released) :
    r'.claimOf? m = some .released := by
  obtain ⟨c, place, claim⟩ := claimOf?_eq_some_iff.mp released
  exact claimOf?_eq_some_iff.mpr ⟨c, guards.same.componentOf?.trans place, guards.released claim⟩

end Guards

/-- A module of a component is completed or in progress. -/
def Settles (r : Registry κ) (c : ComponentId) (m : ModuleId) : Prop :=
  r.componentOf? m = some c →
    r.progressOf? m = some .completed ∨ r.progressOf? m = some .inProgress

theorem Settles.setProgress {progress : Progress} (settles : r.Settles c target)
    (ends : progress = .completed ∨ progress = .inProgress) :
    (r.setProgress m progress).Settles c target := by
  intro place
  rw [(sameModules_setProgress r m progress).componentOf?] at place
  rw [progressOf?_setProgress]
  split
  · rcases settles place with completed | running
    · simpa [completed] using ends
    · simpa [running] using ends
  · exact settles place

theorem Guards.settles {other : Nat} (guards : Guards t r r') (apart : other ≠ t)
    (held : r.claim? c = some (.held other)) (settles : r.Settles c m) : r'.Settles c m := by
  intro place
  rw [guards.same.componentOf?] at place
  rw [guards.kept apart held place]
  exact settles place

end Registry
end MixedModules
