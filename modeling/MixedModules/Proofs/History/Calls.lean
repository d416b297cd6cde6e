import MixedModules.Proofs.Execution.Signatures
import MixedModules.Proofs.History.Steps

/-! Calls in the course of a history.

Adapters are made when a binary module observes an import and when code asks for one, always
around a function that has no signature. So in every store there has been a function with a
signature is one step away from the code behind it, and it is called as its signature says. -/
namespace MixedModules

variable {κ σ ℓ : Type}

namespace Site

/-- In every store that there has been, whoever calls a function there and whatever code runs, a
function with a signature is called as the signature says, one without takes no raw numbers, and
no adapter stands for a function that has a signature of its own. -/
theorem calls_by_signature (setup : Setup κ σ ℓ) (memo : σ) (source : ℓ)
    (calls : List (Call κ σ ℓ)) {site : Site κ σ ℓ}
    (history : site = (start memo source).run setup calls) :
    ∀ s ∈ site.world.past.events, ∀ f function, s.function f = .ok function →
      (∀ type target, function.callable = .adapter type target → s.Unsigned target) ∧
      ∀ (embedder : Embedder κ σ) (depth : Nat) (w : World κ σ), w.store = s →
        (∀ type, function.signature? = some type →
          w.CallsBySignature embedder depth f function type) ∧
        (function.signature? = none → ∀ numbers,
          (Calls.ofDepth embedder (depth + 1)).invoke f numbers w =
            (some (.error (.type (.notBinaryCallable function.name))), w.become w.store)) := by
  intro s told f function known
  have descends := descends_of_run setup memo source calls
  rw [← history] at descends
  have intact := descends.lineage.intact s told
  refine ⟨fun type target adapts => intact.targets f function type target known adapts, ?_⟩
  rintro embedder depth w rfl
  exact ⟨fun type signed => World.callsBySignature intact known signed,
    fun unsigned numbers => World.invokeOver_unsigned known unsigned numbers⟩

end Site

namespace Sample

/-- Code that makes a function and has a binary module's view of it. -/
def wrapping : Program Unit Unit Unit :=
  (Program.operate (.newHost "double" ())).bind fun f =>
    (Program.operate (.observe .function (.function ⟨[.i32], [.i32]⟩) (.function f))).bind fun _ =>
      .done (.ok ())

end Sample

/-- The adapter that the code gets stands for the function without a signature, and a number of
arguments that is not declared is refused by it, whatever the code of the function is. -/
theorem Site.wrapping_by_signature : ∃ s ∈ ((Site.start () ()).run Sample.setup
      [.act Sample.wrapping]).world.past.events,
    s.Unsigned ⟨0⟩ ∧ ∀ (embedder : Embedder Unit Unit) (depth : Nat) (w : World Unit Unit),
      w.store = s → (Calls.ofDepth embedder (depth + 1)).invoke ⟨1⟩ [] w =
        (some (.error (.type (.argumentTypes "double"))), w.become w.store) := by
  have orderly := Site.Orderly.of_run Sample.setup () () [.act Sample.wrapping]
  have laws := Site.calls_by_signature Sample.setup () () [.act Sample.wrapping] rfl _ orderly.present
  have made : ((Site.start () ()).run Sample.setup [.act Sample.wrapping]).world.store.function ⟨1⟩ =
      .ok ⟨"double", .adapter ⟨[.i32], [.i32]⟩ ⟨0⟩⟩ := rfl
  obtain ⟨unsigned, called⟩ := laws ⟨1⟩ _ made
  refine ⟨_, orderly.present, unsigned _ _ rfl, fun embedder depth w same => ?_⟩
  exact ((called embedder depth w same).1 _ rfl).refused [] (by decide)

end MixedModules
