import MixedModules.Proofs.Graph.Settling
import MixedModules.Proofs.History.Orderly
import MixedModules.Proofs.Link.Judging

/-! Building is exact.

Whatever was built, linked and evaluated before, a build ends by itself. Where the loader
hands over the same each time, it gives a graph exactly if everything that its entry
reaches is there and is not too much, and the graph is then all of that, in breadth. -/
namespace MixedModules

variable {κ σ ℓ : Type}

namespace Record

/-- The specifiers that an import, a star or an indirect export of a record names. -/
def Names (record : Record κ) (specifier : String) : Prop :=
  (∃ decl ∈ record.imports, decl.specifier = specifier) ∨ specifier ∈ record.stars ∨
    ∃ decl ∈ record.exports, ∃ name, decl.source = .indirect specifier name

/-- A record that passed its check asks for everything it names. -/
theorem WellFormed.requested_of_names {record : Record κ} {specifier : String}
    (fits : record.WellFormed) (names : record.Names specifier) : specifier ∈ record.requested := by
  rcases names with ⟨decl, member, rfl⟩ | star | ⟨decl, member, name, source⟩
  · exact (fits.imports decl member).requested
  · exact fits.stars specifier star
  · cases body : record.body with
    | script code =>
      have exports := (fits.script code body decl member).2
      rw [source] at exports
      exact exports
    | binary definitions =>
      have exports := (fits.binary definitions body).exports decl member
      simp [BinaryExportFits, source] at exports

end Record

/-- A setup works on a supply: it resolves as the supply does, and its loader hands over
the same, whatever the state of the loader. -/
structure Setup.WorksOn (setup : Setup κ σ ℓ) (supply : Supply κ) : Prop where
  resolver : setup.resolver = supply.resolver
  steady : ∀ identity source, (setup.loader identity source).1 = supply.hand identity

namespace Registry

variable {supply : Supply κ} {r r' : Registry κ}

theorem SuppliedBy.sameModules (supplied : r.SuppliedBy supply) (same : r.SameModules r') :
    r'.SuppliedBy supply := by
  refine supplied.transfer (fun m i known => ?_) fun m i known => ?_
  · obtain ⟨progress, change⟩ := same.modules m
    rw [known] at change
    obtain ⟨before, known', rfl⟩ := Option.map_eq_some_iff.mp change.symm
    exact ⟨before, known', rfl, rfl, rfl⟩
  · obtain ⟨progress, change⟩ := same.modules m
    rw [known] at change
    exact ⟨_, change, rfl⟩

end Registry

namespace Site

variable {setup : Setup κ σ ℓ} {site : Site κ σ ℓ} {supply : Supply κ}

/-- Every call keeps a registry filled from the supply that its setup works on. -/
theorem Orderly.supplied_make (orderly : Orderly setup site) (works : setup.WorksOn supply)
    (supplied : site.registry.SuppliedBy supply) (call : Call κ σ ℓ) :
    (site.make setup call).registry.SuppliedBy supply := by
  cases call with
  | build entry =>
    have settled := ModuleGraph.settles_build works.steady setup.limits entry
      ⟨site.registry, site.source⟩ orderly.stocked supplied
    rw [← works.resolver] at settled
    exact settled.1
  | link n =>
    rcases Orderly.link_cases setup site n with same | ⟨g, links, member, ran, made⟩
    · rwa [same]
    · rw [made]
      have joined := (Links.joined_of_link orderly.linkage (orderly.graphs g member) ran).1
      exact supplied.reassigned joined.reassigned
  | evaluate n =>
    rcases Orderly.evaluate_cases setup site n with same | ⟨l, outcome, machine, member, ran, made⟩
    · rwa [same]
    · rw [made]
      cases outcome with
      | none => exact supplied
      | some result =>
        exact supplied.sameModules ((orderly.evaluated member ran).advanced result rfl).same
  | act program => exact supplied
  | restock source => exact supplied

/-- In every history the registry is filled from the supply that the setup works on. -/
theorem supplied_of_run (setup : Setup κ σ ℓ) (works : setup.WorksOn supply) (memo : σ) (source : ℓ)
    (calls : List (Call κ σ ℓ)) :
    ((Site.start memo source).run setup calls).registry.SuppliedBy supply := by
  induction calls using List.reverseRecOn with
  | nil => exact Registry.SuppliedBy.empty
  | append_singleton calls call ih =>
    rw [run, List.foldl_append]
    exact (Orderly.of_run setup memo source calls).supplied_make works ih call

end Site

namespace ModuleGraph

variable {supply : Supply κ} {r : Registry κ} {g : ModuleGraph} {limit : Nat}

/-- A graph is all that an entry reaches in a supply. -/
structure Whole (supply : Supply κ) (limit : Nat) (start : String) (g : ModuleGraph) : Prop where
  entry : g.identity g.entry = start
  /-- The modules stand in breadth-first order, each once, and no others stand there. -/
  order : BreadthFirst supply.asks [start] [start] (g.nodes.map (·.identity))
  once : (g.nodes.map (·.identity)).Nodup
  all : ∀ identity, identity ∈ g.nodes.map (·.identity) ↔ supply.Reaches start identity
  few : g.size ≤ limit
  /-- The edges of a module are what it asks for, in this order and each once. They lead
  to modules of the graph. -/
  edges : ∀ n ∈ g.nodes, n.dependencies.map g.identity = (supply.asks n.identity).eraseDups ∧
    ∀ target ∈ n.dependencies, target ∈ g.modules
  kinds : ∀ n ∈ g.nodes, ∃ record, supply.Offers n.identity record ∧ record.kind = n.kind

/-- A graph is all that an entry reaches, and every specifier that one of its modules names
leads to the module that it resolves to. -/
structure Exact (supply : Supply κ) (limit : Nat) (r : Registry κ) (start : String)
    (g : ModuleGraph) : Prop extends Whole supply limit start g where
  named : ∀ n ∈ g.nodes, ∃ i, r.get? n.id = some i ∧ i.identity = n.identity ∧ i.kind = n.kind ∧
    supply.Offers n.identity i.record ∧ ∀ specifier, i.record.Names specifier →
      ∃ target ∈ g.modules, i.dependency? specifier = some target ∧
        supply.resolver specifier (some n.identity) = .ok (g.identity target)

/-- A graph that shows a registry has the identities of the registry. -/
theorem Faithful.identity_eq (faithful : g.Faithful r) {m : ModuleId} (member : m ∈ g.modules) :
    g.identity m = r.identityOf m := by
  obtain ⟨n, held, rfl⟩ := List.mem_map.mp member
  obtain ⟨i, known, identity, _⟩ := faithful.drawn.shown n held
  rw [ModuleGraph.identity, node?_of_mem faithful.drawn.distinct held, Registry.identityOf_eq known,
    ← identity]
  rfl

/-- Modules of a graph differ in their identities. -/
theorem Faithful.apart (faithful : g.Faithful r) (supplied : r.SuppliedBy supply)
    {m m' : ModuleId} (member : m ∈ g.modules) (member' : m' ∈ g.modules)
    (same : r.identityOf m = r.identityOf m') : m = m' := by
  obtain ⟨i, known⟩ := faithful.registered member
  obtain ⟨i', known'⟩ := faithful.registered member'
  rw [Registry.identityOf_eq known, Registry.identityOf_eq known'] at same
  exact supplied.distinct m m' i i' known known' same

/-- A module of a graph asks for the identities of its targets. -/
theorem Faithful.asks (faithful : g.Faithful r) (stocked : r.Stocked)
    (supplied : r.SuppliedBy supply) {m : ModuleId} (member : m ∈ g.modules) :
    (r.targets m).map r.identityOf = supply.asks (r.identityOf m) := by
  obtain ⟨dependencies, i, known, resolved⟩ := faithful.resolved m member
  rw [Registry.identityOf_eq known]
  exact supplied.identities stocked known resolved

theorem Faithful.target_mem (faithful : g.Faithful r) {m target : ModuleId}
    (member : m ∈ g.modules) (held : target ∈ r.targets m) : target ∈ g.modules := by
  obtain ⟨dependencies, resolved⟩ := faithful.resolved m member
  rw [resolved.targets] at held
  exact faithful.closed member (resolved.dependsOn_iff.mpr held)

/-- Where each module has its targets once, its edges are what it asks for. -/
theorem Faithful.edges (faithful : g.Faithful r) (stocked : r.Stocked)
    (supplied : r.SuppliedBy supply)
    (drawn : ∀ m ∈ g.modules, g.dependencies m = (r.targets m).eraseDups) {n : Node}
    (held : n ∈ g.nodes) :
    n.dependencies.map g.identity = (supply.asks n.identity).eraseDups ∧
      ∀ target ∈ n.dependencies, target ∈ g.modules := by
  have member : n.id ∈ g.modules := List.mem_map_of_mem held
  obtain ⟨i, known, identity, _⟩ := faithful.drawn.shown n held
  have dependencies : n.dependencies = (r.targets n.id).eraseDups := by
    rw [← drawn n.id member, ModuleGraph.dependencies, node?_of_mem faithful.drawn.distinct held]
    rfl
  have inside : ∀ target ∈ n.dependencies, target ∈ g.modules := by
    intro target depends
    rw [dependencies, List.mem_eraseDups] at depends
    exact faithful.target_mem member depends
  refine ⟨?_, inside⟩
  rw [List.map_congr_left fun target depends => faithful.identity_eq (inside target depends),
    dependencies, map_eraseDups, faithful.asks stocked supplied member,
    Registry.identityOf_eq known, identity]
  exact fun x depends y depends' => faithful.apart supplied (faithful.target_mem member depends)
    (faithful.target_mem member depends')

/-- A specifier that a module of a graph names leads to a module of the graph. -/
theorem Faithful.named (faithful : g.Faithful r) (stocked : r.Stocked)
    (supplied : r.SuppliedBy supply) {m : ModuleId} {i : Instance κ} {specifier : String}
    (member : m ∈ g.modules) (known : r.get? m = some i) (names : i.record.Names specifier) :
    ∃ target ∈ g.modules, i.dependency? specifier = some target ∧
      supply.resolver specifier (some i.identity) = .ok (g.identity target) := by
  have fits := Record.wellFormed_of_validate (stocked.checked m i known)
  obtain ⟨dependencies, i', known', resolved⟩ := faithful.resolved m member
  cases known.symm.trans known'
  obtain ⟨target, leads, depends⟩ :=
    stocked.dependency? known resolved (fits.requested_of_names names)
  obtain ⟨j, there, answer⟩ := supplied.dependency? known leads
  have inside := faithful.closed member depends
  refine ⟨target, inside, leads, ?_⟩
  rw [faithful.identity_eq inside, Registry.identityOf_eq there, answer]

/-- The graph that a build gives is all that its entry reaches. -/
theorem Faithful.exact (faithful : g.Faithful r) (stocked : r.Stocked)
    (supplied : r.SuppliedBy supply) (spans : g.Spans limit r g.entry [g.entry] [g.entry]) :
    g.Exact supply limit r (g.identity g.entry) := by
  have renamed : BreadthFirst supply.asks ([g.entry].map r.identityOf)
      ([g.entry].map r.identityOf) (g.modules.map r.identityOf) :=
    spans.order.map (fun m member => spans.order.subset m member)
      (fun m member m' member' => faithful.apart supplied member member')
      fun m member => faithful.asks stocked supplied member
  have search : BreadthFirst supply.asks [g.identity g.entry] [g.identity g.entry]
      (g.nodes.map (·.identity)) := by
    rw [List.map_singleton, ← faithful.identity_eq faithful.drawn.entry] at renamed
    rwa [faithful.identities]
  refine ⟨⟨rfl, search, search.nodup (List.nodup_singleton _), fun identity => search.mem_iff,
    spans.size, fun n held => faithful.edges stocked supplied spans.dependencies held,
    fun n held => ?_⟩, fun n held => ?_⟩
  · obtain ⟨i, known, identity, kind⟩ := faithful.drawn.shown n held
    exact ⟨i.record, identity ▸ supplied.offers stocked known, kind.symm⟩
  · obtain ⟨i, known, identity, kind⟩ := faithful.drawn.shown n held
    refine ⟨i, known, identity.symm, kind.symm, identity ▸ supplied.offers stocked known,
      fun specifier names => ?_⟩
    rw [identity]
    exact faithful.named stocked supplied (List.mem_map_of_mem held) known names

/-- What such a graph was built from suffices. -/
theorem Faithful.suffices {start : String} (faithful : g.Faithful r) (stocked : r.Stocked)
    (supplied : r.SuppliedBy supply) (whole : g.Whole supply limit start) :
    supply.Suffices limit start := by
  refine ⟨fun identity reaches => ?_, g.nodes.map (·.identity), ?_, fun identity => (whole.all _).mpr⟩
  · obtain ⟨n, held, rfl⟩ := List.mem_map.mp ((whole.all identity).mpr reaches)
    obtain ⟨i, known, identity, _⟩ := faithful.drawn.shown n held
    obtain ⟨dependencies, i', known', resolved⟩ := faithful.resolved n.id (List.mem_map_of_mem held)
    cases known.symm.trans known'
    rw [identity]
    refine ⟨i.record, supplied.offers stocked known, fun specifier asked => ?_⟩
    rw [← (stocked.resolved n.id i dependencies known resolved).1] at asked
    obtain ⟨d, there, rfl⟩ := List.mem_map.mp asked
    obtain ⟨j, _, answer⟩ := supplied.resolved n.id i dependencies known resolved d there
    exact ⟨j.identity, answer⟩
  · rw [List.length_map]
    exact whole.few

end ModuleGraph

/-! ## Builds -/

namespace Site

variable {setup : Setup κ σ ℓ} {site : Site κ σ ℓ} {supply : Supply κ} {entry start : String}

/-- A build of an engine is one of its registry. -/
theorem build_eq (setup : Setup κ σ ℓ) (site : Site κ σ ℓ) (entry : String)
    {ended : Except Stop ModuleGraph × Stock κ ℓ}
    (ran : (ModuleGraph.build setup.resolver setup.loader setup.limits entry).outcome
      ⟨site.registry, site.source⟩ = ended) :
    site.engine.build setup.resolver setup.loader setup.limits entry site.source =
      (ended.1, { site.engine with registry := ended.2.registry }, ended.2.source) := by
  subst ran
  rfl

section Supplied

variable (works : setup.WorksOn supply) (stocked : site.registry.Stocked)
  (supplied : site.registry.SuppliedBy supply)

include works stocked supplied

/-- A graph that is built is all that its entry reaches, and this suffices. -/
theorem exact_of_build {g : ModuleGraph} {engine : Engine κ} {source : ℓ}
    (ran : site.engine.build setup.resolver setup.loader setup.limits entry site.source =
      (.ok g, engine, source)) :
    ∃ start, supply.resolver entry none = .ok start ∧
      g.Exact supply setup.limits.room engine.registry start ∧
      supply.Suffices setup.limits.room start := by
  have faithful := Orderly.build_yields setup site entry stocked
  have spans := ModuleGraph.build_spans setup.resolver setup.loader setup.limits entry
    ⟨site.registry, site.source⟩ stocked
  have settled := ModuleGraph.settles_build works.steady setup.limits entry
    ⟨site.registry, site.source⟩ stocked supplied
  rw [← works.resolver] at settled ⊢
  rcases result : (ModuleGraph.build setup.resolver setup.loader setup.limits entry).outcome
    ⟨site.registry, site.source⟩ with ⟨_, last⟩
  rw [build_eq setup site entry result] at ran
  cases ran
  rw [result] at faithful spans settled
  have faithful := faithful.2.2 g rfl
  obtain ⟨_, stocked, spans⟩ := spans
  obtain ⟨spans, i, known, resolves⟩ := spans g rfl
  have whole := faithful.exact stocked settled.1 spans
  refine ⟨g.identity g.entry, ?_, whole, faithful.suffices stocked settled.1 whole.toWhole⟩
  rw [faithful.identity_eq faithful.drawn.entry, Registry.identityOf_eq known, resolves]

/-- Where what an entry reaches suffices, its graph is built. -/
theorem exists_build (resolves : supply.resolver entry none = .ok start)
    (suffices_ : supply.Suffices setup.limits.room start) : ∃ g engine source,
      site.engine.build setup.resolver setup.loader setup.limits entry site.source =
        (.ok g, engine, source) := by
  have settled := ModuleGraph.settles_build works.steady setup.limits entry
    ⟨site.registry, site.source⟩ stocked supplied
  rw [← works.resolver] at settled resolves
  rcases result : (ModuleGraph.build setup.resolver setup.loader setup.limits entry).outcome
    ⟨site.registry, site.source⟩ with ⟨reason | g, last⟩
  · rw [result] at settled
    exact absurd suffices_ (settled.2 start resolves)
  · exact ⟨g, _, _, build_eq setup site entry result⟩

end Supplied

/-- How a build of an entry ends, and what it gives. -/
structure Builds (setup : Setup κ σ ℓ) (site : Site κ σ ℓ) (entry : String) : Prop where
  /-- It ends by itself, after no more expansions than a graph may have modules. -/
  ends : ∃ rounds ended, ModuleGraph.Runs setup.resolver setup.loader setup.limits entry
      ⟨site.registry, site.source⟩ rounds ended ∧
    site.engine.build setup.resolver setup.loader setup.limits entry site.source =
      (ended.1, { site.engine with registry := ended.2.registry }, ended.2.source) ∧
    rounds.flatten.Nodup ∧ rounds.flatten.length ≤ setup.limits.maxModules
  /-- It gives a graph exactly if everything that the entry reaches is there, and there is
  room for it. -/
  succeeds : ∀ supply, setup.WorksOn supply →
    ((∃ g engine source,
        site.engine.build setup.resolver setup.loader setup.limits entry site.source =
          (.ok g, engine, source)) ↔
      ∃ start, supply.resolver entry none = .ok start ∧
        supply.Suffices setup.limits.maxModules start)
  /-- The graph is then all of that. -/
  gives : ∀ supply, setup.WorksOn supply → ∀ g engine source,
    site.engine.build setup.resolver setup.loader setup.limits entry site.source =
      (.ok g, engine, source) →
    ∃ start, supply.resolver entry none = .ok start ∧
      g.Exact supply setup.limits.maxModules engine.registry start

theorem Orderly.builds (orderly : Orderly setup site) (positive : 1 ≤ setup.limits.maxModules)
    (supplied : ∀ supply, setup.WorksOn supply → site.registry.SuppliedBy supply) (entry : String) :
    site.Builds setup entry := by
  have stocked := orderly.stocked
  have room := BuildLimits.room_eq positive
  obtain ⟨rounds, ran, once, few⟩ := ModuleGraph.build_runs setup.resolver setup.loader setup.limits
    entry ⟨site.registry, site.source⟩ stocked
  refine ⟨⟨rounds, _, ran, rfl, once, room ▸ few⟩, fun supply works => ⟨?_, ?_⟩,
    fun supply works g engine source ends => ?_⟩
  · rintro ⟨g, engine, source, ends⟩
    obtain ⟨start, resolves, _, suffices_⟩ := exact_of_build works stocked (supplied supply works) ends
    exact ⟨start, resolves, room ▸ suffices_⟩
  · rintro ⟨start, resolves, suffices_⟩
    exact exists_build works stocked (supplied supply works) resolves (room.symm ▸ suffices_)
  · obtain ⟨start, resolves, whole, _⟩ := exact_of_build works stocked (supplied supply works) ends
    exact ⟨start, resolves, room ▸ whole⟩

/-- In every history a build ends by itself, and where the loader hands over the same each
time it gives exactly the graph of what its entry reaches. -/
theorem build_exact (setup : Setup κ σ ℓ) (positive : 1 ≤ setup.limits.maxModules) (memo : σ)
    (source : ℓ) (calls : List (Call κ σ ℓ)) {site : Site κ σ ℓ}
    (history : site = (Site.start memo source).run setup calls) (entry : String) :
    site.Builds setup entry := by
  subst history
  exact (Orderly.of_run setup memo source calls).builds positive
    (fun supply works => supplied_of_run setup works memo source calls) entry

end Site

/-- What the small setup works on. -/
def Sample.supply : Supply Unit where
  resolver specifier _ := .ok specifier
  hand identity := .record (if identity = "counter" then counter else reader)

namespace Site

/-- In the small history the reader reaches itself and the counter, which was built before. -/
theorem reader_built : ∃ site g engine source,
    site = (Site.start () ()).run Sample.setup [.build "counter"] ∧
    site.engine.build Sample.setup.resolver Sample.setup.loader Sample.setup.limits "reader"
      site.source = (.ok g, engine, source) ∧
    g.Exact Sample.supply 10 engine.registry "reader" ∧
    ∀ identity, Sample.supply.Reaches "reader" identity ↔ identity ∈ ["reader", "counter"] := by
  generalize ended : (Site.start () ()).run Sample.setup [.build "counter"] = site
  have result : ((site.engine.build Sample.setup.resolver Sample.setup.loader Sample.setup.limits
      "reader" site.source).1.map fun g => g.nodes.map (·.identity)).toOption =
        some ["reader", "counter"] := by
    rw [← ended]
    decide +kernel
  have works : Sample.setup.WorksOn Sample.supply := ⟨rfl, fun _ _ => rfl⟩
  have builds := build_exact Sample.setup (by decide) () () [.build "counter"] ended.symm "reader"
  rcases ran : site.engine.build Sample.setup.resolver Sample.setup.loader Sample.setup.limits
    "reader" site.source with ⟨outcome, engine, source⟩
  rw [ran] at result
  cases outcome with
  | error reason => cases result
  | ok g =>
    obtain ⟨start, resolves, whole⟩ := builds.gives _ works g engine source ran
    cases resolves
    have listed : g.nodes.map (·.identity) = ["reader", "counter"] := Option.some.inj result
    refine ⟨site, g, engine, source, rfl, ran, whole, fun identity => ?_⟩
    rw [← whole.all, listed]

end Site
end MixedModules
