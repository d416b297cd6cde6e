import MixedModules.Proofs.Graph.Renaming
import MixedModules.Proofs.History.Building
import MixedModules.Proofs.History.Linking

/-! Linking bit by bit comes to the same as linking from scratch.

Whatever was built, linked and evaluated before, a graph is linked as it would be by a
new engine that only built this graph, or it is refused with the same error. For what
linked modules import was judged once, and would be judged the same again. -/
namespace MixedModules

variable {κ σ ℓ : Type}

/-! ## One graph under two numberings -/

namespace ModuleGraph

variable {supply : Supply κ} {limit limit' : Nat} {start : String} {g g' : ModuleGraph}
  {r r' : Registry κ} {m : ModuleId}

/-- The module of a graph that bears an identity. -/
def bearing (g : ModuleGraph) (identity : String) : ModuleId :=
  ((g.nodes.find? fun n => n.identity = identity).map (·.id)).getD g.entry

theorem bearing_identity (distinct : (g.nodes.map (·.identity)).Nodup) {n : Node}
    (member : n ∈ g.nodes) : g.bearing n.identity = n.id := by
  rw [bearing, find?_of_nodup_map distinct member]
  rfl

theorem identity_of_mem (distinct : g.modules.Nodup) {n : Node} (member : n ∈ g.nodes) :
    g.identity n.id = n.identity := by
  rw [identity, node?_of_mem distinct member]
  rfl

theorem bearing_of_mem (once : (g.nodes.map (·.identity)).Nodup) (distinct : g.modules.Nodup)
    (member : m ∈ g.modules) : g.bearing (g.identity m) = m := by
  obtain ⟨n, held, rfl⟩ := List.mem_map.mp member
  rw [identity_of_mem distinct held, bearing_identity once held]

theorem identity_bearing (once : (g.nodes.map (·.identity)).Nodup) (distinct : g.modules.Nodup)
    {identity : String} (there : identity ∈ g.nodes.map (·.identity)) :
    g.identity (g.bearing identity) = identity := by
  obtain ⟨n, held, rfl⟩ := List.mem_map.mp there
  rw [bearing_identity once held, identity_of_mem distinct held]

/-- What another graph has in place of a module: the module with the same identity. -/
def counterpart (g g' : ModuleGraph) (m : ModuleId) : ModuleId := g'.bearing (g.identity m)

namespace Whole

variable (whole : g.Whole supply limit start) (faithful : g.Faithful r)
  (whole' : g'.Whole supply limit' start) (faithful' : g'.Faithful r')

include whole faithful whole' faithful'

omit faithful faithful' in
theorem identities_eq : g.nodes.map (·.identity) = g'.nodes.map (·.identity) :=
  whole.order.unique whole'.order

theorem separates_counterpart : g.Separates (g.counterpart g') := by
  have distinct := faithful.drawn.distinct
  have bears : ∀ m ∈ g.modules, g'.identity (g.counterpart g' m) = g.identity m := by
    intro m member
    obtain ⟨n, held, rfl⟩ := List.mem_map.mp member
    refine identity_bearing whole'.once faithful'.drawn.distinct ?_
    rw [identity_of_mem distinct held, ← whole.identities_eq whole']
    exact List.mem_map_of_mem held
  intro m member m' member' same
  have alike : g.identity m = g.identity m' := by
    rw [← bears m member, ← bears m' member', same]
  rw [← bearing_of_mem whole.once distinct member, alike,
    bearing_of_mem whole.once distinct member']

theorem node_eq {n n' : Node} (member : n ∈ g.nodes) (member' : n' ∈ g'.nodes)
    (same : n'.identity = n.identity) :
    n' = ⟨g.counterpart g' n.id, n.identity, n.kind, n.dependencies.map (g.counterpart g')⟩ := by
  obtain ⟨record, offered, kind⟩ := whole.kinds n member
  obtain ⟨record', offered', kind'⟩ := whole'.kinds n' member'
  rw [same] at offered'
  cases offered.unique offered'
  have id : n'.id = g.counterpart g' n.id := by
    rw [counterpart, identity_of_mem faithful.drawn.distinct member, ← same,
      bearing_identity whole'.once member']
  have targets : n'.dependencies = (n'.dependencies.map g'.identity).map g'.bearing := by
    rw [List.map_map]
    exact (List.map_id'' (fun _ => rfl) _).symm.trans (List.map_congr_left fun target depends =>
      (bearing_of_mem whole'.once faithful'.drawn.distinct
        ((whole'.edges n' member').2 target depends)).symm)
  have dependencies : n'.dependencies = n.dependencies.map (g.counterpart g') := by
    rw [targets, (whole'.edges n' member').1, same, ← (whole.edges n member).1, List.map_map]
    rfl
  calc n' = ⟨n'.id, n'.identity, n'.kind, n'.dependencies⟩ := rfl
    _ = _ := by rw [id, same, ← kind', kind, dependencies]

/-- All that an entry reaches makes up one graph, save for the numbers of its modules. -/
theorem eq_rename : g' = g.rename (g.counterpart g') := by
  have identities := whole.identities_eq whole'
  have entry : g'.entry = g.counterpart g' g.entry := by
    rw [counterpart, whole.entry, ← whole'.entry,
      bearing_of_mem whole'.once faithful'.drawn.distinct faithful'.drawn.entry]
  have length : g'.nodes.length = g.nodes.length := by
    simpa using (congrArg List.length identities).symm
  have nodes : g'.nodes = (g.rename (g.counterpart g')).nodes := by
    refine List.ext_getElem (by simp [rename, length]) fun k inside inside' => ?_
    have here : k < g.nodes.length := length ▸ inside
    have same : g'.nodes[k].identity = g.nodes[k].identity := by
      have both := List.getElem_of_eq identities (i := k) (by simpa using here)
      simpa using both.symm
    rw [whole.node_eq faithful whole' faithful' (List.getElem_mem here) (List.getElem_mem inside) same]
    simp [rename]
  calc g' = ⟨g'.entry, g'.nodes⟩ := rfl
    _ = g.rename (g.counterpart g') := by rw [entry, nodes]; rfl

end Whole

end ModuleGraph

/-- A graph is linked alike under other numbers. -/
theorem Supply.Concludes.rename {supply : Supply κ} {g : ModuleGraph} {f : ModuleId → ModuleId}
    {x : Except LinkError Unit} (concludes : supply.Concludes g x) (apart : g.Separates f)
    (closed : ∀ m ∈ g.modules, ∀ target ∈ g.dependencies m, target ∈ g.modules) :
    supply.Concludes (g.rename f) x := by
  have same := ModuleGraph.binaryCycle?_rename apart closed
  cases concludes with
  | cyclic found =>
    rw [← ModuleGraph.identities_rename apart found]
    exact .cyclic (by rw [same, found]; rfl)
  | judged acyclic judges =>
    refine .judged (by rw [same, acyclic]; rfl) ?_
    have identities : (g.rename f).nodes.map (·.identity) = g.nodes.map (·.identity) := by
      simp [ModuleGraph.rename]
    rwa [identities]

/-! ## What calls keep -/

namespace Registry.SameHomes

variable {r r' : Registry κ} {s s' : Store κ} {supply : Supply κ}

/-- Where modules live as they did, what was judged stays so. -/
theorem judged (same : r.SameHomes r') (supplied : r'.SuppliedBy supply) (grows : s.Grows s')
    (housed : Links.Housed ⟨r, s⟩) (judged : Links.Judged ⟨r, s⟩ supply) :
    Links.Judged ⟨r', s'⟩ supply := by
  refine ⟨supplied, judged.shared.transfer (fun m e record => (same.homes m e record).mp)
    fun e record after home present => ?_, fun m i linked known decl declared => ?_⟩
  · obtain ⟨m, i, known, environment, _⟩ := same.home_iff.mp home
    obtain ⟨before, there, _⟩ := housed.present m i e known environment
    obtain ⟨entities, present'⟩ := grows.environments e before there
    cases present.symm.trans present'
    exact ⟨before, there, rfl⟩
  · obtain ⟨_, known', linked⟩ := linked
    cases known.symm.trans known'
    obtain ⟨e, environment⟩ := Option.isSome_iff_exists.mp linked
    obtain ⟨j, before, home, record⟩ := (same.homes m e i.record).mp ⟨i, known, environment, rfl⟩
    have linked' : r.Linked m := ⟨j, before, by rw [Instance.isLinked, home]; rfl⟩
    rw [same.identities m j i before known]
    exact judged.granted m j linked' before decl (record ▸ declared)

end Registry.SameHomes

namespace Site

variable {setup : Setup κ σ ℓ} {site : Site κ σ ℓ} {supply : Supply κ}

/-- The registry of a site and the store of its world. -/
def links (site : Site κ σ ℓ) : Links κ := ⟨site.registry, site.world.store⟩

/-- What all calls keep where a setup works on a supply: what was judged stays so, and the
graphs are all that the entries of builds reach. -/
structure Steady (setup : Setup κ σ ℓ) (supply : Supply κ) (calls : List (Call κ σ ℓ))
    (site : Site κ σ ℓ) : Prop where
  judged : site.links.Judged supply
  graphs : ∀ g ∈ site.graphs, ∃ entry start, .build entry ∈ calls ∧
    supply.resolver entry none = .ok start ∧ g.Whole supply setup.limits.room start ∧
    supply.Suffices setup.limits.room start

theorem Steady.start (memo : σ) (source : ℓ) :
    Steady setup supply [] (.start memo source : Site κ σ ℓ) := by
  refine ⟨⟨.empty, fun m i known => ?_, fun m i _ known => ?_⟩, fun g member => ?_⟩
  · cases known
  · cases known
  · cases member

/-- What a build leaves behind. -/
theorem make_build (setup : Setup κ σ ℓ) (site : Site κ σ ℓ) (entry : String) :
    ∃ result engine source,
      site.engine.build setup.resolver setup.loader setup.limits entry site.source =
        (result, engine, source) ∧
      site.make setup (.build entry) = { site with
        engine, source, graphs := match result with
          | .ok g => g :: site.graphs
          | .error _ => site.graphs } :=
  ⟨_, _, _, rfl, rfl⟩

/-- Every call keeps a site steady. -/
theorem Steady.make {calls : List (Call κ σ ℓ)} (steady : Steady setup supply calls site)
    (orderly : Orderly setup site) (works : setup.WorksOn supply) (call : Call κ σ ℓ) :
    Steady setup supply (calls ++ [call]) (site.make setup call) := by
  have supplied := orderly.supplied_make works steady.judged.supplied call
  have before : ∀ g ∈ site.graphs, ∃ entry start, .build entry ∈ calls ++ [call] ∧
      supply.resolver entry none = .ok start ∧ g.Whole supply setup.limits.room start ∧
      supply.Suffices setup.limits.room start := by
    intro g member
    obtain ⟨entry, start, built, rest⟩ := steady.graphs g member
    exact ⟨entry, start, List.mem_append_left _ built, rest⟩
  cases call with
  | build entry =>
    obtain ⟨grows, _⟩ := Orderly.build_yields setup site entry orderly.stocked
    refine ⟨grows.sameHomes.judged supplied (.refl _) orderly.housed steady.judged, ?_⟩
    obtain ⟨result, engine, source, ran, made⟩ := make_build setup site entry
    rw [made]
    cases result with
    | error reason => exact before
    | ok g =>
      obtain ⟨start, resolves, whole, suffices_⟩ :=
        exact_of_build works orderly.stocked steady.judged.supplied ran
      exact List.forall_mem_cons.mpr
        ⟨⟨entry, start, by simp, resolves, whole.toWhole, suffices_⟩, before⟩
  | link n =>
    rcases Orderly.link_cases setup site n with same | ⟨g, links, member, ran, made⟩
    · rw [same]
      exact ⟨steady.judged, before⟩
    · rw [made]
      exact ⟨Links.judged_of_link orderly.housed orderly.stocked orderly.linkage
        (orderly.graphs g member) steady.judged ran, before⟩
  | evaluate n =>
    rcases Orderly.evaluate_cases setup site n with same | ⟨l, outcome, machine, member, ran, made⟩
    · rw [same]
      exact ⟨steady.judged, before⟩
    · have evaluated := orderly.evaluated member ran
      have grows := evaluated.leads.present.1
      rw [made] at supplied ⊢
      cases outcome with
      | none =>
        exact ⟨(Registry.SameHomes.refl _).judged supplied grows orderly.housed steady.judged, before⟩
      | some result =>
        have homes := (evaluated.advanced result rfl).same.sameHomes
        exact ⟨homes.judged supplied grows orderly.housed steady.judged, before⟩
  | act program =>
    have grows := (Orderly.leads_act setup site program).present.1
    exact ⟨(Registry.SameHomes.refl _).judged supplied grows orderly.housed steady.judged, before⟩
  | restock source => exact ⟨steady.judged, before⟩

/-- In every history on a supply a site is steady. -/
theorem Steady.of_run (setup : Setup κ σ ℓ) (works : setup.WorksOn supply) (memo : σ) (source : ℓ)
    (calls : List (Call κ σ ℓ)) :
    Steady setup supply calls ((Site.start memo source).run setup calls) := by
  induction calls using List.reverseRecOn with
  | nil => exact .start memo source
  | append_singleton calls call ih =>
    rw [run, List.foldl_append]
    exact ih.make (Orderly.of_run setup memo source calls) works call

/-! ## From scratch -/

/-- What linking a graph comes to: it is done, or it is refused with an error. -/
def linking (site : Site κ σ ℓ) (g : ModuleGraph) : Except LinkError Unit :=
  (site.engine.link g site.world.store).map fun _ => ()

/-- What linking comes to is settled by the graph and the supply. -/
theorem Steady.concludes {calls : List (Call κ σ ℓ)} {g : ModuleGraph}
    (steady : Steady setup supply calls site) (orderly : Orderly setup site)
    (member : g ∈ site.graphs) : supply.Concludes g (site.linking g) := by
  have same : site.linking g = (Links.link site.links g).map fun _ => () := by
    unfold linking Engine.link links registry
    cases Links.link ⟨site.engine.registry, site.world.store⟩ g <;> rfl
  rw [same]
  exact Links.concludes_link orderly.housed orderly.stocked orderly.linkage
    (orderly.graphs g member) steady.judged

/-- A new engine builds what was built before, if it is asked for the same. -/
theorem Steady.exists_fresh {calls : List (Call κ σ ℓ)} {g : ModuleGraph}
    (steady : Steady setup supply calls site) (orderly : Orderly setup site)
    (works : setup.WorksOn supply) (member : g ∈ site.graphs) :
    ∃ entry, .build entry ∈ calls ∧ ∀ memo source, ∃ f, g.Separates f ∧
      ((Site.start memo source).run setup [.build entry]).graphs = [g.rename f] := by
  obtain ⟨entry, start, built, resolves, whole, suffices_⟩ := steady.graphs g member
  refine ⟨entry, built, fun memo source => ?_⟩
  have scratch : Orderly setup (.start memo source) := .start memo source
  obtain ⟨g', _, _, ran⟩ := exists_build works scratch.stocked .empty resolves suffices_
  obtain ⟨_, _, _, ran', made⟩ := make_build setup (.start memo source) entry
  cases ran.symm.trans ran'
  have graphs : ((Site.start memo source).run setup [.build entry]).graphs = [g'] := by
    rw [run, List.foldl_cons, List.foldl_nil, made]
    rfl
  have here : g' ∈ ((Site.start memo source).run setup [.build entry]).graphs := by simp [graphs]
  obtain ⟨entry', start', built', resolves', whole', _⟩ :=
    (Steady.of_run setup works memo source [.build entry]).graphs g' here
  cases List.mem_singleton.mp built'
  cases resolves.symm.trans resolves'
  have faithful := orderly.graphs g member
  have faithful' := (Orderly.of_run setup memo source [.build entry]).graphs g' here
  refine ⟨g.counterpart g', whole.separates_counterpart faithful whole' faithful', ?_⟩
  rw [← whole.eq_rename faithful whole' faithful', graphs]

/-- Linking after a history, against linking from scratch. -/
structure Incremental (setup : Setup κ σ ℓ) (calls : List (Call κ σ ℓ)) (site : Site κ σ ℓ) :
    Prop where
  /-- What linked modules depend on is linked. -/
  closed : ∀ m target, site.registry.Linked m → site.registry.DependsOn m target →
    site.registry.Linked target
  /-- The component of a linked module is made up of the modules that depend on it and on
  which it depends, directly or through any others. -/
  components : ∀ m, site.registry.Linked m → ∃ c component,
    site.registry.componentOf? m = some c ∧ site.registry.component? c = some component ∧
    ∀ other, other ∈ component.members ↔ site.registry.Mutual m other
  /-- A graph that was built is linked, or refused with an error, as it is on a new engine
  that only built this graph. There its modules may have other numbers. -/
  agrees : ∀ g ∈ site.graphs, ∃ entry, .build entry ∈ calls ∧ ∀ memo source, ∃ f, g.Separates f ∧
    ((Site.start memo source).run setup [.build entry]).graphs = [g.rename f] ∧
    ((Site.start memo source).run setup [.build entry]).linking (g.rename f) = site.linking g

theorem Orderly.components (orderly : Orderly setup site) {m : ModuleId}
    (linked : site.registry.Linked m) : ∃ c component,
      site.registry.componentOf? m = some c ∧ site.registry.component? c = some component ∧
      ∀ other, other ∈ component.members ↔ site.registry.Mutual m other := by
  obtain ⟨c, place⟩ := (orderly.linkage.placed m).mp linked
  obtain ⟨component, known, _⟩ := (orderly.linkage.grouped.members m c).mp place
  refine ⟨c, component, place, known, fun other => ?_⟩
  constructor
  · intro inside
    have place' := (orderly.linkage.grouped.members other c).mpr ⟨component, known, inside⟩
    exact (orderly.linkage.grouped.strong m other c c place place').mp rfl
  · intro both
    obtain ⟨c', place'⟩ := (orderly.linkage.placed other).mp (orderly.linkage.reach linked both.1)
    cases (orderly.linkage.grouped.strong m other c c' place place').mpr both
    obtain ⟨_, known', inside⟩ := (orderly.linkage.grouped.members other c).mp place'
    cases known.symm.trans known'
    exact inside

/-- In every history in which the loader hands over the same each time, graphs are linked
as they would be from scratch. -/
theorem link_incremental (setup : Setup κ σ ℓ) (works : setup.WorksOn supply) (memo : σ) (source : ℓ)
    (calls : List (Call κ σ ℓ)) {site : Site κ σ ℓ}
    (history : site = (Site.start memo source).run setup calls) :
    site.Incremental setup calls := by
  subst history
  have orderly := Orderly.of_run setup memo source calls
  have steady := Steady.of_run setup works memo source calls
  refine ⟨fun m target linked => (orderly.linkage.closed m linked).2 target,
    fun m linked => orderly.components linked, fun g member => ?_⟩
  obtain ⟨entry, built, fresh⟩ := steady.exists_fresh orderly works member
  refine ⟨entry, built, fun memo source => ?_⟩
  obtain ⟨f, apart, graphs⟩ := fresh memo source
  refine ⟨f, apart, graphs, ?_⟩
  have faithful := orderly.graphs g member
  have closed : ∀ m ∈ g.modules, ∀ target ∈ g.dependencies m, target ∈ g.modules :=
    fun m held target depends => faithful.closed held ((faithful.mem_dependencies held).mp depends)
  have scratch := (Steady.of_run setup works memo source [.build entry]).concludes
    (Orderly.of_run setup memo source [.build entry]) (g := g.rename f) (by simp [graphs])
  exact scratch.unique ((steady.concludes orderly member).rename apart closed)

/-- In the small history the counter was linked and evaluated before the reader was built,
which is linked as it would be on a new engine. -/
theorem reader_incremental : ∃ site g f,
    site = (Site.start () ()).run Sample.setup
      [.build "counter", .link 0, .evaluate 0, .build "reader"] ∧
    g ∈ site.graphs ∧ g.modules = [⟨1⟩, ⟨0⟩] ∧ site.links.pending g = [⟨1⟩] ∧
    site.linking g = .ok () ∧
    ((Site.start () ()).run Sample.setup [.build "reader"]).graphs = [g.rename f] ∧
    ((Site.start () ()).run Sample.setup [.build "reader"]).linking (g.rename f) = .ok () := by
  generalize ended : (Site.start () ()).run Sample.setup
    [.build "counter", .link 0, .evaluate 0, .build "reader"] = site
  have facts : ∃ g ∈ site.graphs, g.modules = [⟨1⟩, ⟨0⟩] ∧ site.links.pending g = [⟨1⟩] ∧
      (site.linking g).isOk = true := by
    rw [← ended]
    decide +kernel
  obtain ⟨g, member, modules, pending, linked⟩ := facts
  have done : site.linking g = .ok () := by
    cases result : site.linking g with
    | error e => simp [result, Except.isOk, Except.toBool] at linked
    | ok _ => rfl
  have works : Sample.setup.WorksOn Sample.supply := ⟨rfl, fun _ _ => rfl⟩
  have incremental := link_incremental Sample.setup works () ()
    [.build "counter", .link 0, .evaluate 0, .build "reader"] ended.symm
  obtain ⟨entry, built, fresh⟩ := incremental.agrees g member
  obtain ⟨f, _, graphs, same⟩ := fresh () ()
  have entries : entry = "counter" ∨ entry = "reader" := by simpa using built
  rcases entries with rfl | rfl
  · -- A new engine that builds the counter builds a smaller graph.
    have small : ((Site.start () ()).run Sample.setup [.build "counter"]).graphs.map (·.size) = [1] := by
      decide +kernel
    rw [graphs, List.map_singleton, ModuleGraph.size_rename, ModuleGraph.size_eq, modules] at small
    cases small
  · exact ⟨site, g, f, rfl, member, modules, pending, done, graphs, same.trans done⟩

end Site

end MixedModules
