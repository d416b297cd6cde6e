import Mathlib.Data.List.Induction
import MixedModules.Proofs.Evaluation.Honesty
import MixedModules.Proofs.History.Orderly

/-! Honest histories.

Where the code of an embedder is honest, and so is what it does to the world itself, there is
at no moment of a history a handle of what is not there. -/
namespace MixedModules

variable {κ σ ℓ : Type} {carries : σ → List Value}

/-- A call with honest code. -/
def Call.Honest (carries : σ → List Value) : Call κ σ ℓ → Prop
  | act program => program.Honest carries (fun _ => []) Value.Primitive
  | build _ | link _ | evaluate _ | restock _ => True

/-- A history in which all code is honest, and in which the embedder begins with no handle. -/
structure Honest (setup : Setup κ σ ℓ) (carries : σ → List Value) (memo : σ)
    (calls : List (Call κ σ ℓ)) : Prop where
  embedder : setup.interpreter.embedder.Honest carries
  memo : ∀ v ∈ carries memo, v.Primitive
  calls : ∀ call ∈ calls, call.Honest carries

namespace Site

variable {setup : Setup κ σ ℓ} {site : Site κ σ ℓ} {memo : σ}

/-- Whatever an honest call does, nothing refers to what is not there. -/
theorem Orderly.genuine_make (orderly : Orderly setup site)
    (embedder : setup.interpreter.embedder.Honest carries) {call : Call κ σ ℓ}
    (honest : call.Honest carries) (genuine : site.world.Genuine carries) :
    (site.make setup call).world.Genuine carries := by
  cases call with
  | build entry => exact genuine
  | link n =>
    rcases link_cases setup site n with same | ⟨g, links, member, ran, made⟩
    · rwa [same]
    rw [made]
    obtain ⟨_, extends_, _⟩ := Links.housed_of_link orderly.housed orderly.stocked ran
    exact genuine.become extends_.keeps (extends_.genuine genuine.present)
  | evaluate n =>
    rcases evaluate_cases setup site n with same | ⟨l, outcome, machine, member, ran, made⟩
    · rwa [same]
    obtain ⟨order, stop, after, _, followed⟩ := orderly.follows member (site.engine.traversals + 1)
    rw [ran] at followed
    have world : machine.world = _ := followed.world
    have last : machine.world.Genuine carries := by
      rw [world]
      exact Machine.genuine_runSearch embedder stop order genuine
    rw [made]
    cases outcome <;> exact last
  | act program =>
    exact (World.deals_run (World.honestCalls_ofDepth embedder _) honest genuine
      fun _ => .of_primitive).genuine
  | restock source => exact genuine

/-- At no moment of an honest history does anything refer to what is not there. -/
theorem genuine_of_run {calls : List (Call κ σ ℓ)} (honest : Honest setup carries memo calls)
    (source : ℓ) : ((start memo source).run setup calls).world.Genuine carries := by
  induction calls using List.reverseRecOn with
  | nil =>
    refine ⟨.empty, fun s told => ?_, fun v carried => .of_primitive (honest.memo v carried)⟩
    have told : s ∈ (Chronicle.empty.add (Store.empty : Store κ)).events := told
    rw [Chronicle.events_add, Chronicle.events_empty] at told
    cases List.mem_singleton.mp told
    exact .empty
  | append_singleton calls call ih =>
    rw [run, List.foldl_append]
    exact (Orderly.of_run setup memo source calls).genuine_make honest.embedder
      (honest.calls call (by simp)) (ih ⟨honest.embedder, honest.memo, fun other member =>
        honest.calls other (List.mem_append_left _ member)⟩)

end Site
end MixedModules
