import MixedModules.Proofs.History.Orderly
import MixedModules.Proofs.Link.Deciding

/-! Linking a graph: all of it or nothing.

A graph that was built is linked unless its binary modules wait for each other or one of
its imports is refused. Which of these it is decides the error, and an error leaves
everything as it was. -/
namespace MixedModules

variable {κ σ ℓ : Type}

namespace Site

/-- What an engine links and what it refuses, where all modules of the graph are given
their slots before the first import is looked at. -/
structure Decides (setup : Setup κ σ ℓ) (site : Site κ σ ℓ) (g : ModuleGraph)
    (l staged : Links κ) : Prop where
  /-- A cycle of binary modules is refused, and only that is refused as one. -/
  cyclic : (∃ identities, site.engine.link g site.world.store = .error (.binaryCycle identities)) ↔
    ∃ cycle, g.BinaryCycle cycle
  /-- The cycle that is reported is one of them. -/
  reported : ∀ identities,
    site.engine.link g site.world.store = .error (.binaryCycle identities) →
      ∃ cycle, g.BinaryCycle cycle ∧ identities = cycle.map g.identity
  /-- Otherwise an error is that of the first import that is refused, in the order of the
  modules that are to be linked and of what they declare. -/
  refused : (∀ cycle, ¬ g.BinaryCycle cycle) → ∀ e,
    site.engine.link g site.world.store = .error e ↔ ∃ before ask after,
      Links.imports l.registry (l.pending g) = before ++ ask :: after ∧
      (∀ ask ∈ before, ∃ origin slot, staged.Grants ask.1 ask.2 origin slot) ∧
      staged.Refuses ask.1 ask.2 e
  /-- Where nothing is in the way the graph is linked. -/
  linked : (∃ result, site.engine.link g site.world.store = .ok result) ↔
    (∀ cycle, ¬ g.BinaryCycle cycle) ∧ ∀ ask ∈ Links.imports l.registry (l.pending g),
      ∃ origin slot, staged.Grants ask.1 ask.2 origin slot
  /-- After an error nothing is different. -/
  unchanged : ∀ e n, site.engine.link g site.world.store = .error e →
    site.graphs[n]? = some g → site.make setup (.link n) = site
  /-- After success the whole graph is linked, and what was linked before is as it was. -/
  completes : ∀ result engine store,
    site.engine.link g site.world.store = .ok (result, engine, store) →
      result.graph = g ∧ l.Completes g ⟨engine.registry, store⟩

/-- A link of an engine is one of its registry and store. -/
private theorem link_eq (site : Site κ σ ℓ) (g : ModuleGraph) :
    site.engine.link g site.world.store =
      (Links.link ⟨site.registry, site.world.store⟩ g).map fun links =>
        (⟨g⟩, { site.engine with registry := links.registry }, links.store) := by
  unfold Engine.link Site.registry
  cases Links.link ⟨site.engine.registry, site.world.store⟩ g <;> rfl

theorem link_eq_error {site : Site κ σ ℓ} {g : ModuleGraph} {e : LinkError} :
    site.engine.link g site.world.store = .error e ↔
      Links.link ⟨site.registry, site.world.store⟩ g = .error e := by
  rw [link_eq]
  cases Links.link ⟨site.registry, site.world.store⟩ g <;> simp [Except.map]

theorem link_eq_ok {site : Site κ σ ℓ} {g : ModuleGraph} {result : LinkedGraph} {engine : Engine κ}
    {store : Store κ} : site.engine.link g site.world.store = .ok (result, engine, store) ↔
      ∃ links, Links.link ⟨site.registry, site.world.store⟩ g = .ok links ∧ result = ⟨g⟩ ∧
        engine = { site.engine with registry := links.registry } ∧ store = links.store := by
  rw [link_eq]
  cases Links.link ⟨site.registry, site.world.store⟩ g <;> simp [Except.map, eq_comm]

theorem Orderly.decides {setup : Setup κ σ ℓ} {site : Site κ σ ℓ} (orderly : site.Orderly setup)
    {g : ModuleGraph} (member : g ∈ site.graphs) :
    site.Decides setup g ⟨site.registry, site.world.store⟩
      (Links.staged ⟨site.registry, site.world.store⟩ g) := by
  have faithful := orderly.graphs g member
  obtain ⟨housed, stocked, linkage⟩ :=
    And.intro orderly.housed (And.intro orderly.stocked orderly.linkage)
  refine ⟨?_, fun identities ran => ?_, fun acyclic e => ?_, ?_, fun e n ran named => ?_,
    fun result engine store ran => ?_⟩
  · simp only [link_eq_error]
    exact Links.link_eq_cyclic_iff housed stocked linkage faithful
  · have decision := Links.decision_link housed stocked linkage faithful
    rw [link_eq_error.mp ran] at decision
    generalize error : LinkError.binaryCycle identities = e at decision
    cases decision with
    | cyclic closed =>
      cases error
      exact ⟨_, closed, rfl⟩
    | refused _ _ _ refused => exact (error ▸ refused).not_cyclic.elim
  · rw [link_eq_error]
    exact Links.link_eq_error_iff housed stocked linkage faithful acyclic e
  · rw [← Links.link_eq_ok_iff housed stocked linkage faithful]
    constructor
    · rintro ⟨⟨result, engine, store⟩, ran⟩
      obtain ⟨links, ran, _⟩ := link_eq_ok.mp ran
      exact ⟨links, ran⟩
    · rintro ⟨links, ran⟩
      exact ⟨_, link_eq_ok.mpr ⟨links, ran, rfl, rfl, rfl⟩⟩
  · simp only [Site.make, named, ran]
  · obtain ⟨links, linked, rfl, rfl, rfl⟩ := link_eq_ok.mp ran
    have decision := Links.decision_link housed stocked linkage faithful
    rw [linked] at decision
    cases decision with
    | granted _ _ completes => exact ⟨rfl, completes⟩

/-- In every history, linking a graph that was built is refused for a cycle of binary
modules, or for the first import that is not granted, and otherwise completes. -/
theorem link_decides (setup : Setup κ σ ℓ) (memo : σ) (source : ℓ) (calls : List (Call κ σ ℓ))
    {site : Site κ σ ℓ} (history : site = (Site.start memo source).run setup calls)
    {g : ModuleGraph} (member : g ∈ site.graphs) :
    site.Decides setup g ⟨site.registry, site.world.store⟩
      (Links.staged ⟨site.registry, site.world.store⟩ g) := by
  have orderly : Orderly setup site := history ▸ Orderly.of_run setup memo source calls
  exact orderly.decides member

/-- In the small history the graph of the reader is linked as a whole. -/
theorem reader_decided : ∃ site g result engine store,
    site = (Site.start () ()).run Sample.setup [.build "reader"] ∧ g ∈ site.graphs ∧
    site.engine.link g site.world.store = .ok (result, engine, store) ∧
    Links.Completes ⟨site.registry, site.world.store⟩ g ⟨engine.registry, store⟩ := by
  generalize ended : (Site.start () ()).run Sample.setup [.build "reader"] = site
  have links : ∃ g ∈ site.graphs, (site.engine.link g site.world.store).isOk = true := by
    rw [← ended]
    decide +kernel
  obtain ⟨g, member, links⟩ := links
  have decides := link_decides Sample.setup () () [.build "reader"] ended.symm member
  rcases ran : site.engine.link g site.world.store with _ | ⟨result, engine, store⟩
  · rw [ran] at links
    cases links
  · exact ⟨site, g, result, engine, store, rfl, member, ran,
      (decides.completes result engine store ran).2⟩

end Site
end MixedModules
