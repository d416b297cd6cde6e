import MixedModules.Proofs.Evaluation.Evolving
import MixedModules.Proofs.History.Steps
import MixedModules.Proofs.Link.Inertness

/-! Handles of a history.

What a handle means changes by operations only, whoever comes by it: the embedder, the code of a
module, or the engine when it makes what a binary module defines. So a handle that conforms to a
type at one moment conforms to it ever after, and an import has to be checked only once. -/
namespace MixedModules

variable {κ σ ℓ : Type}

namespace Site

variable {setup : Setup κ σ ℓ} {site : Site κ σ ℓ}

/-- Whatever a call does it does to objects by operations. -/
theorem Orderly.evolving_make (orderly : Orderly setup site) (evolving : site.world.Evolving)
    (call : Call κ σ ℓ) : (site.make setup call).world.Evolving := by
  cases call with
  | build entry => exact evolving
  | link n =>
    rcases link_cases setup site n with same | ⟨g, links, _, ran, made⟩
    · rwa [same]
    rw [made]
    exact evolving.become (.of_same (Links.sameObjects_of_link ran))
  | evaluate n =>
    rcases evaluate_cases setup site n with same | ⟨l, outcome, machine, member, ran, made⟩
    · rwa [same]
    obtain ⟨order, stop, after, _, followed⟩ := orderly.follows member (site.engine.traversals + 1)
    rw [ran] at followed
    have world : machine.world = _ := followed.world
    have last : machine.world.Evolving := by
      rw [world]
      exact Machine.evolved_runSearch stop order site.world evolving
    rw [made]
    cases outcome <;> exact last
  | act program =>
    have passes := World.passing_evolved (κ := κ) (σ := σ)
    exact World.passes_run passes (World.passes_ofDepth passes _ _) program site.world evolving
  | restock source => exact evolving

theorem evolving_of_run (setup : Setup κ σ ℓ) (memo : σ) (source : ℓ) (calls : List (Call κ σ ℓ)) :
    ((start memo source).run setup calls).world.Evolving := by
  induction calls using List.reverseRecOn with
  | nil => exact .start memo
  | append_singleton calls call ih =>
    rw [run, List.foldl_append]
    exact (Orderly.of_run setup memo source calls).evolving_make ih call

/-- At every moment of a history objects are within their bounds, later they are what they were but
for what they hold, and what conformed to a type still does. An operation changes no element of a
table but the one it sets, and adds the one it is given. -/
theorem handles_last (setup : Setup κ σ ℓ) (memo : σ) (source : ℓ) (calls : List (Call κ σ ℓ)) :
    let world := ((start memo source).run setup calls).world
    world.Evolving ∧ (∀ s ∈ world.past.events, s.Bounded) ∧
    (world.past.events.Pairwise fun later earlier => earlier.Lasts later ∧
      ∀ type value, earlier.Conforms type value → later.Conforms type value) ∧
    (∀ (s : Store κ) (o : Operation κ) t table, s.table t = .ok table →
      ∃ table', (s.after o).table t = .ok table' ∧ table'.maximum = table.maximum ∧
        table'.elements.toList = o.onElements t table.room table.elements.toList) ∧
    ∀ limits : Limits, limits.isValid → limits.min ≤ Table.greatestSize →
      ∃ table, Table.new limits = .ok table ∧ table.maximum = limits.max := by
  have evolving := evolving_of_run setup memo source calls
  have grows := (descends_of_run setup memo source calls).ordered.steps
  refine ⟨evolving, evolving.bounded, (evolving.lasting.and grows).imp fun both => ?_,
    fun s o t table known => Store.elements_after known o, fun _ => Table.maximum_new⟩
  exact ⟨both.1, fun _ _ conforms => conforms.kept both.2.toKeeps⟩

end Site
end MixedModules
