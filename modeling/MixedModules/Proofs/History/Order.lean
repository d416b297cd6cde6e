import MixedModules.Proofs.History.Orderly

/-! The order in which an evaluation enters modules.

Claims and components decide what a traversal does with a module that it reaches. All
the same it enters the modules that a plain depth-first search lists, in the order of
the list, and stops after the first of them that fails. -/
namespace MixedModules

variable {κ σ ℓ : Type}

/-- An evaluation from `site` enters `news`, the latest first, for the entries `ran` of a
search that lists `order` and stops with `stop`. -/
structure Site.Foretold (setup : Setup κ σ ℓ) (site : Site κ σ ℓ)
    (order : List (ModuleId × List ModuleId)) (stop : Option EvalError)
    (outcome : Option (Except EvalError Unit)) (engine : Engine κ) (world : World κ σ)
    (ran : List (ModuleId × List ModuleId)) (news : List (Entering κ)) : Prop where
  /-- What runs is what the search lists, up to the first failure, and it ends alike. -/
  runs : InOrder (fun entry => Machine.program setup.interpreter site.registry entry.1)
    site.world order stop ran outcome world
  /-- Nothing else is entered. -/
  entered : engine.registry.entered.events = news ++ site.registry.entered.events
  modules : news.reverse.map (·.module) = ran.map (·.1)
  /-- An entered module depends on completed modules only, and on modules of its own
  component that are on the path by which the search came to it. -/
  ready : List.Forall₂ (fun x entry => x.Ready entry.2) news.reverse ran
  /-- Success means that nothing cuts the search short. -/
  succeeds : outcome = some (.ok ()) ↔ stop = none ∧
    ∃ w, RunThrough (fun entry => Machine.program setup.interpreter site.registry entry.1)
      order site.world w

namespace Site

variable {setup : Setup κ σ ℓ} {site : Site κ σ ℓ}

/-- What follows the search was foretold by it. -/
private theorem foretold_of_followed {traversal : Nat} {after : List ModuleId}
    {order : List (ModuleId × List ModuleId)} {stop : Option EvalError}
    {outcome : Option (Except EvalError Unit)} {machine : Machine κ σ} {engine : Engine κ}
    (followed : Machine.Followed setup.interpreter site.registry traversal [] after order stop
      site.registry site.world (outcome, machine))
    (same : engine.registry = machine.registry) :
    ∃ ran news, site.Foretold setup order stop outcome engine machine.world ran news := by
  obtain ⟨outcomes, worlds, ⟨news, events, told⟩, _, _, _⟩ := followed
  simp only at outcomes worlds events
  refine ⟨_, news, ⟨?_, by rw [same, events], Machine.modules_of_told told,
    told.imp fun _ _ of => of.2, ?_⟩⟩
  · have runs := inOrder_runInOrder
      (fun entry => Machine.program setup.interpreter site.registry entry.1) stop order site.world
    rw [outcomes, worlds]
    exact runs
  · rw [outcomes]
    exact runInOrder_ok_iff

/-- An evaluation of a linked module runs what the plain search from this module lists:
all of it, or up to the first failure. The search has one outcome. -/
theorem evaluate_in_order (setup : Setup κ σ ℓ) (memo : σ) (source : ℓ)
    (calls : List (Call κ σ ℓ)) {site : Site κ σ ℓ}
    (history : site = (Site.start memo source).run setup calls) {l : LinkedGraph}
    (member : l ∈ site.linked) {outcome : Option (Except EvalError Namespace)} {engine : Engine κ}
    {world : World κ σ}
    (evaluates : site.engine.evaluate setup.interpreter l site.world = (outcome, engine, world)) :
    ∃ order stop after, PostOrder site.registry [] [l.graph.entry] [] order stop after ∧
      (∀ order' stop' after',
        PostOrder site.registry [] [l.graph.entry] [] order' stop' after' →
          order' = order ∧ stop' = stop) ∧
      ∃ result ran news, site.Foretold setup order stop result engine world ran news ∧
        outcome = result.map fun result =>
          result.map fun _ => engine.namespaceOf world.store l.graph.entry := by
  have orderly : Orderly setup site := history ▸ Orderly.of_run setup memo source calls
  obtain ⟨order, stop, after, search, followed⟩ :=
    orderly.follows member (site.engine.traversals + 1)
  have unique := fun order' stop' after'
      (other : PostOrder site.registry [] [l.graph.entry] [] order' stop' after') =>
    have same := other.unique search
    And.intro same.1 same.2.1
  refine ⟨order, stop, after, search, unique, ?_⟩
  rcases ran : Machine.evaluate setup.interpreter (site.engine.traversals + 1) l.graph.entry
    ⟨site.registry, site.world⟩ with ⟨result, machine⟩
  rw [ran] at followed
  unfold Site.registry at ran
  unfold Engine.evaluate at evaluates
  simp only [ran, Prod.mk.injEq] at evaluates
  obtain ⟨rfl, rfl, rfl⟩ := evaluates
  have same : (⟨machine.registry, site.engine.traversals + 1⟩ : Engine κ).registry =
    machine.registry := rfl
  obtain ⟨entries, news, foretold⟩ := foretold_of_followed followed same
  exact ⟨result, entries, news, foretold, rfl⟩

/-- In the small history the search lists the counter before the reader. -/
private theorem prepared_search : PostOrder Sample.prepared.registry [] [⟨0⟩] []
    [(⟨1⟩, [⟨1⟩, ⟨0⟩]), (⟨0⟩, [⟨0⟩])] none [⟨1⟩, ⟨0⟩] := by
  have waits : ∀ m targets, (Sample.prepared.registry.get? m).map
      (fun i => (i.targets, i.progress)) = some (targets, .notStarted) →
      ∃ i, Sample.prepared.registry.get? m = some i ∧ i.targets = targets ∧
        i.progress = .notStarted := by
    intro m targets same
    obtain ⟨i, known, parts⟩ := Option.map_eq_some_iff.mp same
    exact ⟨i, known, congrArg Prod.fst parts, congrArg Prod.snd parts⟩
  obtain ⟨reader, readerKnown, readerTargets, readerWaits⟩ := waits ⟨0⟩ [⟨1⟩] (by decide +kernel)
  obtain ⟨counter, known, targets, counterWaits⟩ := waits ⟨1⟩ [] (by decide +kernel)
  have alone : PostOrder Sample.prepared.registry [⟨1⟩, ⟨0⟩] counter.targets [⟨1⟩, ⟨0⟩] [] none
      [⟨1⟩, ⟨0⟩] := by
    rw [targets]
    exact .done
  have below : PostOrder Sample.prepared.registry [⟨0⟩] reader.targets [⟨0⟩]
      ([] ++ [(⟨1⟩, [⟨1⟩, ⟨0⟩])]) none [⟨1⟩, ⟨0⟩] := by
    rw [readerTargets]
    exact .enter (by decide) known counterWaits alone .done
  exact .enter (by decide) readerKnown readerWaits below .done

/-- In the small history the counter is entered first, and then the reader. -/
theorem prepared_in_order : ∃ l ∈ Sample.prepared.linked, ∃ news,
    (Sample.prepared.engine.evaluate Sample.setup.interpreter l
        Sample.prepared.world).2.1.registry.entered.events =
      news ++ Sample.prepared.registry.entered.events ∧
    news.reverse.map (·.module) = [⟨1⟩, ⟨0⟩] := by
  have linked : ∃ l ∈ Sample.prepared.linked, l.graph.entry = ⟨0⟩ ∧
      ((Sample.prepared.engine.evaluate Sample.setup.interpreter l
        Sample.prepared.world).1.map Except.isOk) = some true := by
    decide +kernel
  obtain ⟨l, member, entry, success⟩ := linked
  refine ⟨l, member, ?_⟩
  rcases ran : Sample.prepared.engine.evaluate Sample.setup.interpreter l Sample.prepared.world with
    ⟨outcome, engine, world⟩
  rw [ran] at success
  obtain ⟨order, stop, after, search, unique, result, entries, news, foretold, ends⟩ :=
    evaluate_in_order Sample.setup () () Sample.preparation rfl member ran
  refine ⟨news, foretold.entered, ?_⟩
  rw [entry] at unique
  obtain ⟨rfl, rfl⟩ := unique _ _ _ prepared_search
  have succeeds : result = some (.ok ()) := by
    rcases result with _ | _ | _
    · rw [ends] at success
      cases success
    · rw [ends] at success
      cases success
    · rfl
  rw [foretold.modules, foretold.runs.complete succeeds]
  rfl

end Site
end MixedModules
