import Mathlib.Tactic.ByContra
import MixedModules.History
import MixedModules.Proofs.Evaluation.Outcome
import MixedModules.Proofs.Graph.Building
import MixedModules.Proofs.Link.Resolvability

/-! What holds between any two calls of an engine.

Each call keeps all of it, whatever its outcome: the registry is well-formed and
settled, the graphs show what it holds, the world is sound and so were all stores
there have been, and no module was entered twice. -/
namespace MixedModules

variable {κ σ ℓ : Type}

namespace Registry

variable {r r' : Registry κ}

/-- The modules that were entered were entered once, and are not waiting any more. -/
def EnteredOnce (r : Registry κ) : Prop :=
  (r.entered.events.map (·.module)).Nodup ∧ ∀ x ∈ r.entered.events, r.Begun x.module

/-- Modules have the environments and the identities they had. -/
structure SameHomes (r r' : Registry κ) : Prop where
  homes : ∀ m e record, r'.HomeOf m e record ↔ r.HomeOf m e record
  identities : ∀ m i i', r.get? m = some i → r'.get? m = some i' → i'.identity = i.identity

/-- What an evaluation is done with stays as it is, and so does where modules live. -/
structure Lasting (r r' : Registry κ) : Prop where
  homes : ∀ m e record, r.HomeOf m e record → r'.HomeOf m e record
  progress : ∀ m progress, r.progressOf? m = some progress → progress ≠ .notStarted →
    r'.progressOf? m = some progress

namespace Lasting

theorem refl (r : Registry κ) : r.Lasting r := ⟨fun _ _ _ home => home, fun _ _ held _ => held⟩

theorem trans {r'' : Registry κ} (first : r.Lasting r') (second : r'.Lasting r'') :
    r.Lasting r'' :=
  ⟨fun m e record home => second.homes m e record (first.homes m e record home),
    fun m progress held spent =>
      second.progress m progress (first.progress m progress held spent) spent⟩

theorem begun {m : ModuleId} (lasting : r.Lasting r') (begun : r.Begun m) : r'.Begun m := by
  obtain ⟨progress, held, spent⟩ := begun
  exact ⟨progress, lasting.progress m progress held spent, spent⟩

/-- A failure that was raised stays one that was raised. -/
theorem raised {interpreter : Interpreter κ σ} {e : EvalError} (lasting : r.Lasting r')
    (raised : Machine.Raised interpreter r e) : Machine.Raised interpreter r' e := by
  obtain ⟨m, i, home, w, known, environment, there, fails⟩ := raised
  obtain ⟨i', known', environment', record⟩ := lasting.homes m home i.record
    ⟨i, known, environment, rfl⟩
  exact ⟨m, i', home, w, known', environment', there, by rwa [record]⟩

end Lasting

namespace SameHomes

theorem refl (r : Registry κ) : r.SameHomes r :=
  ⟨fun _ _ _ => Iff.rfl, fun _ _ _ known known' => by cases known.symm.trans known'; rfl⟩

theorem home_iff (same : r.SameHomes r') {e : EnvironmentId} {record : Record κ} :
    r'.Home e record ↔ r.Home e record :=
  exists_congr fun m => same.homes m e record

/-- Where modules live as they did, they are housed as they were. -/
theorem housed {s s' : Store κ} (same : r.SameHomes r') (safe : s.Safe r.Home s')
    (housed : Links.Housed ⟨r, s⟩) : Links.Housed ⟨r', s'⟩ := by
  refine ⟨(safe.2 housed.sound).rehouse fun e record home => .inl (same.home_iff.mp home),
    fun m m' i i' e known known' environment environment' => ?_, fun m i e known environment => ?_⟩
  · obtain ⟨j, held, home, _⟩ := (same.homes m e i.record).mp ⟨i, known, environment, rfl⟩
    obtain ⟨j', held', home', _⟩ := (same.homes m' e i'.record).mp ⟨i', known', environment', rfl⟩
    exact housed.apart m m' j j' e held held' home home'
  · obtain ⟨j, held, home, _⟩ := (same.homes m e i.record).mp ⟨i, known, environment, rfl⟩
    obtain ⟨there, present, mine⟩ := housed.present m j e held home
    obtain ⟨entities, present⟩ := safe.1.environments e there present
    exact ⟨_, present, mine.trans (same.identities m j i held known).symm⟩

end SameHomes

theorem SameModules.sameHomes (same : r.SameModules r') : r.SameHomes r' := by
  refine ⟨fun m e record => ?_, fun m i i' known known' => ?_⟩
  · obtain ⟨progress, change⟩ := same.modules m
    unfold HomeOf
    rw [change]
    cases r.get? m <;> simp
  · obtain ⟨progress, change⟩ := same.modules m
    rw [known] at change
    cases known'.symm.trans change
    rfl

theorem Grows.sameHomes {may : ModuleId → Prop} (grows : r.Grows may r') : r.SameHomes r' := by
  refine ⟨fun m e record => ?_, fun m i i' known known' => ?_⟩
  · cases known : r.get? m with
    | some i =>
      obtain ⟨dependencies, known', _⟩ := grows.kept m i known
      simp [HomeOf, known, known']
    | none =>
      have absent : ¬ r'.HomeOf m e record := by
        rintro ⟨i, known', environment, _⟩
        rw [(grows.added m i known known').1] at environment
        cases environment
      have absent' : ¬ r.HomeOf m e record := by
        rintro ⟨i, known', _⟩
        rw [known] at known'
        cases known'
      exact iff_of_false absent absent'
  · obtain ⟨dependencies, grown, _⟩ := grows.kept m i known
    cases known'.symm.trans grown
    rfl

end Registry

namespace Registry

variable {r r' : Registry κ} {m target : ModuleId}

/-- What was completed or has failed was linked. -/
theorem Settled.linked (settled : r.Settled) {progress : Progress}
    (held : r.progressOf? m = some progress) (spent : progress ≠ .notStarted) : r.Linked m := by
  obtain ⟨i, known, rfl⟩ := progressOf?_eq_some_iff.mp held
  refine ⟨i, known, ?_⟩
  by_contra unlinked
  exact spent (settled.unlinked m i known (by simpa using unlinked))

/-- A module that is known keeps its progress when modules are loaded. -/
theorem Grows.progressOf?_of_some {may : ModuleId → Prop} {progress : Progress}
    (grows : r.Grows may r') (held : r.progressOf? m = some progress) :
    r'.progressOf? m = some progress := by
  rcases grows.progressOf? m with same | ⟨absent, _⟩
  · rw [same, held]
  · obtain ⟨i, known, _⟩ := progressOf?_eq_some_iff.mp held
    rw [absent] at known
    cases known

/-- What is over was over before. -/
theorem Grows.progressOf?_of_over {may : ModuleId → Prop} {progress : Progress}
    (grows : r.Grows may r') (held : r'.progressOf? m = some progress)
    (spent : progress ≠ .notStarted) : r.progressOf? m = some progress := by
  rcases grows.progressOf? m with same | ⟨_, waiting⟩
  · rw [← same, held]
  · rw [held] at waiting
    exact absurd (Option.some.inj waiting) spent

theorem Grows.lasting {may : ModuleId → Prop} (grows : r.Grows may r') : r.Lasting r' :=
  ⟨fun m e record home => (grows.sameHomes.homes m e record).mpr home,
    fun _ _ held _ => grows.progressOf?_of_some held⟩

/-- Loading modules unsettles nothing: new ones wait, and what is over was linked, so its
dependencies were known. -/
theorem Settled.grows {may : ModuleId → Prop} (settled : r.Settled) (linkage : r.Linkage)
    (grows : r.Grows may r') : r'.Settled := by
  refine ⟨fun m running => ?_, fun m i known unlinked => ?_, fun c component known => ?_,
    fun m target completed depends => ?_⟩
  · exact settled.idle m (grows.progressOf?_of_over running (by simp))
  · by_contra spent
    have held := grows.progressOf?_of_over (progressOf?_eq_some_iff.mpr ⟨i, known, rfl⟩) spent
    obtain ⟨j, known', linked⟩ := grows.linked_iff.mpr (settled.linked held spent)
    cases known.symm.trans known'
    rw [linked] at unlinked
    cases unlinked
  · rw [grows.component?] at known
    rcases settled.claims c component known with ⟨free, waiting⟩ | ⟨released, e, spent⟩
    · exact .inl ⟨free, fun m member => grows.progressOf?_of_some (waiting m member)⟩
    · refine .inr ⟨released, e, fun m member => ?_⟩
      exact (spent m member).imp grows.progressOf?_of_some grows.progressOf?_of_some
  · have held := grows.progressOf?_of_over completed (by simp)
    obtain ⟨⟨dependencies, resolved⟩, _⟩ := linkage.closed m (settled.linked held (by simp))
    have depends := (resolved.dependsOn_grows grows).mp depends
    rw [grows.componentOf?, grows.componentOf?]
    exact (settled.follows m target held depends).imp_left grows.progressOf?_of_some

theorem Reassigned.progressOf? (same : r.Reassigned r') :
    r'.progressOf? m = r.progressOf? m := by
  obtain ⟨environment, component, change⟩ := same m
  unfold Registry.progressOf?
  rw [change]
  cases r.get? m <;> rfl

theorem Reassigned.faithful {g : ModuleGraph} (same : r.Reassigned r') (faithful : g.Faithful r) :
    g.Faithful r' := by
  apply faithful.transfer
  intro m i known
  obtain ⟨environment, component, change⟩ := same m
  rw [known] at change
  exact ⟨_, change, rfl, rfl, fun _ held => held⟩

/-- Linking leaves the modules that were linked where they are. -/
theorem Joined.lasting {fresh : List ModuleId} (joined : Links.Joined r fresh r')
    (unlinked : ∀ m ∈ fresh, ∃ i, r.get? m = some i ∧ i.isLinked = false) : r.Lasting r' := by
  refine ⟨fun m e record home => ?_, fun m progress held _ => ?_⟩
  · obtain ⟨i, known, environment, record⟩ := home
    have outside : m ∉ fresh := fun member => by
      obtain ⟨j, known', open_⟩ := unlinked m member
      cases known.symm.trans known'
      simp [Instance.isLinked, environment] at open_
    exact ⟨i, (joined.kept m outside).trans known, environment, record⟩
  · rw [joined.reassigned.progressOf?, held]

/-- Linking modules unsettles nothing: those that were not linked wait. -/
theorem Settled.joined {fresh : List ModuleId} (settled : r.Settled) (linkage : r.Linkage)
    (joined : Links.Joined r fresh r')
    (unlinked : ∀ m ∈ fresh, ∃ i, r.get? m = some i ∧ i.isLinked = false) : r'.Settled := by
  have apart : ∀ m, r.Linked m → r'.get? m = r.get? m := by
    rintro m ⟨i, known, linked⟩
    apply joined.kept m
    intro member
    obtain ⟨j, known', open_⟩ := unlinked m member
    cases known.symm.trans known'
    rw [linked] at open_
    cases open_
  refine ⟨fun m running => ?_, fun m i known open_ => ?_, fun c component known => ?_,
    fun m target completed depends => ?_⟩
  · rw [joined.reassigned.progressOf?] at running
    exact settled.idle m running
  · by_contra spent
    have held : r.progressOf? m = some i.progress := by
      rw [← joined.reassigned.progressOf?]
      exact progressOf?_eq_some_iff.mpr ⟨i, known, rfl⟩
    obtain ⟨j, known', linked⟩ := (joined.linked m).mpr (.inl (settled.linked held spent))
    cases known.symm.trans known'
    rw [linked] at open_
    cases open_
  · rcases joined.new c component known with old | ⟨free, members⟩
    · simp only [joined.reassigned.progressOf?]
      exact settled.claims c component old
    · refine .inl ⟨free, fun m member => ?_⟩
      obtain ⟨i, held, open_⟩ := unlinked m (members m member)
      rw [joined.reassigned.progressOf?]
      exact progressOf?_eq_some_iff.mpr ⟨i, held, settled.unlinked m i held open_⟩
  · rw [joined.reassigned.progressOf?] at completed ⊢
    have linked := settled.linked completed (by simp)
    have depends := joined.reassigned.dependsOn_iff.mp depends
    have linkedTarget := (linkage.closed m linked).2 target depends
    unfold Registry.componentOf?
    rw [apart m linked, apart target linkedTarget]
    exact settled.follows m target completed depends

end Registry

namespace Registry

variable {r r' : Registry κ} {result : Except EvalError Unit}

theorem SameModules.faithful {g : ModuleGraph} (same : r.SameModules r') (faithful : g.Faithful r) :
    g.Faithful r' := by
  apply faithful.transfer
  intro m i known
  obtain ⟨progress, change⟩ := same.modules m
  rw [known] at change
  exact ⟨_, change, rfl, rfl, fun _ held => held⟩

theorem Advanced.lasting (advanced : r.Advanced result r') : r.Lasting r' := by
  refine ⟨fun m e record home => (advanced.same.sameHomes.homes m e record).mpr home,
    fun m progress held spent => ?_⟩
  rw [advanced.kept m (by rwa [held, ne_eq, Option.some.injEq]), held]

/-- What an evaluation enters was not entered before. -/
theorem Advanced.enteredOnce (advanced : r.Advanced result r') (once : r.EnteredOnce) :
    r'.EnteredOnce := by
  obtain ⟨news, events, distinct, fresh⟩ := advanced.entered
  unfold EnteredOnce
  rw [events, List.map_append]
  refine ⟨List.Nodup.append distinct once.1 fun m now before => ?_, fun x member => ?_⟩
  · obtain ⟨x, member, rfl⟩ := List.mem_map.mp now
    obtain ⟨y, member', same⟩ := List.mem_map.mp before
    obtain ⟨progress, held, spent⟩ := once.2 y member'
    rw [same, (fresh x member).1] at held
    exact spent (Option.some.inj held).symm
  · rcases List.mem_append.mp member with now | before
    · exact (fresh x now).2
    · exact advanced.lasting.begun (once.2 x before)

end Registry

/-- The invariant of the life of an engine. -/
structure Site.Orderly (setup : Setup κ σ ℓ) (site : Site κ σ ℓ) : Prop where
  stocked : site.registry.Stocked
  linkage : site.registry.Linkage
  settled : site.registry.Settled
  graphs : ∀ g ∈ site.graphs, g.Faithful site.registry
  linked : ∀ l ∈ site.linked, site.registry.Linked l.graph.entry
  housed : Links.Housed ⟨site.registry, site.world.store⟩
  past : ∀ s ∈ site.world.past.events,
    s.Sound site.registry.Home ∧ s.Grows site.world.store
  present : site.world.store ∈ site.world.past.events
  entered : site.registry.EnteredOnce
  raised : ∀ m e, site.registry.progressOf? m = some (.errored e) →
    Machine.Raised setup.interpreter site.registry e

namespace Site.Orderly

variable {setup : Setup κ σ ℓ} {site : Site κ σ ℓ}

theorem start (memo : σ) (source : ℓ) : Orderly setup (.start memo source : Site κ σ ℓ) := by
  have absent : ∀ m, (Site.start memo source : Site κ σ ℓ).registry.get? m = none := fun _ => rfl
  have unknown : ∀ m, (Site.start memo source : Site κ σ ℓ).registry.progressOf? m = none :=
    fun _ => rfl
  have sound : (Store.empty : Store κ).Sound (Site.start memo source : Site κ σ ℓ).registry.Home := by
    refine ⟨fun i slot known => ?_, fun e environment known => ?_, fun e record environment home => ?_⟩
    · cases known
    · cases known
    · obtain ⟨m, i, known, _⟩ := home
      cases known
  constructor
  · constructor
    · intro m i known
      cases known
    · intro m i dependencies known
      cases known
  · exact Registry.linkage_empty
  · refine ⟨fun m running => ?_, fun m i known => ?_, fun c component known => ?_, fun m target done_ => ?_⟩
    · cases running
    · cases known
    · cases known
    · cases done_
  · intro g member
    cases member
  · intro l member
    cases member
  · refine ⟨sound, fun m m' i i' e known => ?_, fun m i e known => ?_⟩
    · cases known
    · cases known
  · intro s member
    have same : s = Store.empty := by
      simpa [Site.start, World.start] using member
    subst same
    exact ⟨sound, .refl _⟩
  · simp [Site.start, World.start]
  · constructor
    · simp [Site.start, Site.registry, Engine.new, Registry.empty]
    · simp [Site.start, Site.registry, Engine.new, Registry.empty]
  · intro m e failed
    cases failed

/-! ## Calls -/

/-- The store may go on, and nothing but what is said of stores is touched. -/
private theorem past_leads {homes : EnvironmentId → Record κ → Prop} {w w' : World κ σ}
    (sound : w.store.Sound homes) (past : ∀ s ∈ w.past.events, s.Sound homes ∧ s.Grows w.store)
    (leads : World.Leads (Store.Safe homes) w w') :
    ∀ s ∈ w'.past.events, s.Sound homes ∧ s.Grows w'.store := by
  intro s told
  rcases leads.past s told with before | ⟨after, onward⟩
  · exact ⟨(past s before).1, (past s before).2.trans leads.present.1⟩
  · exact ⟨after.2 sound, onward.1⟩

/-- A change of the world alone. -/
theorem world (orderly : Orderly setup site) {w : World κ σ}
    (leads : World.Leads (Store.Safe site.registry.Home) site.world w) :
    Orderly setup { site with world := w } :=
  { orderly with
    housed := (Registry.SameHomes.refl _).housed leads.present orderly.housed
    past := past_leads orderly.housed.sound orderly.past leads
    present := leads.told orderly.present }

theorem leads_act (setup : Setup κ σ ℓ) (site : Site κ σ ℓ) (program : Program κ σ Unit) :
    World.Leads (Store.Safe site.registry.Home) site.world
      (site.make setup (.act program)).world := by
  have respected := Store.respected_safe site.registry.Home
  exact World.through_run respected
    (World.through_ofDepth respected setup.interpreter.embedder setup.interpreter.depth) program
    site.world

theorem act (orderly : Orderly setup site) (program : Program κ σ Unit) :
    Orderly setup (site.make setup (.act program)) :=
  orderly.world (leads_act setup site program)

/-- Where the registry grows, its modules live as they did and nothing that is over
changes. -/
private theorem grown (orderly : Orderly setup site) {r : Registry κ} {may : ModuleId → Prop}
    {graphs : List ModuleGraph} {source : ℓ} (grows : site.registry.Grows may r)
    (stocked : r.Stocked) (faithful : ∀ g ∈ graphs, g.Faithful r) :
    Orderly setup ⟨⟨r, site.engine.traversals⟩, site.world, source, graphs, site.linked⟩ where
  stocked := stocked
  linkage := orderly.linkage.grows grows
  settled := orderly.settled.grows orderly.linkage grows
  graphs := faithful
  linked l member := grows.linked_iff.mpr (orderly.linked l member)
  housed := grows.sameHomes.housed (.refl _) orderly.housed
  past s told := ⟨(orderly.past s told).1.rehouse fun _ _ home =>
    .inl (grows.sameHomes.home_iff.mp home), (orderly.past s told).2⟩
  present := orderly.present
  entered := by
    have same : r.entered = site.registry.entered := grows.entered
    have once : r.EnteredOnce := by
      unfold Registry.EnteredOnce
      rw [same]
      exact ⟨orderly.entered.1, fun x member => grows.lasting.begun (orderly.entered.2 x member)⟩
    exact once
  raised m e failed := grows.lasting.raised
    (orderly.raised m e (grows.progressOf?_of_over failed (by simp)))

/-- What a build of an engine leaves behind, and what it gives. -/
theorem build_yields (setup : Setup κ σ ℓ) (site : Site κ σ ℓ) (entry : String) :
    Loads.Yields (fun _ => True) (ModuleGraph.build setup.resolver setup.loader setup.limits entry)
      ⟨site.registry, site.source⟩ ModuleGraph.Faithful :=
  ModuleGraph.yields_build

theorem build (orderly : Orderly setup site) (entry : String) :
    Orderly setup (site.make setup (.build entry)) := by
  obtain ⟨grows, stocked, built⟩ := build_yields setup site entry orderly.stocked
  apply orderly.grown grows stocked
  intro g member
  split at member
  · rename_i g' result
    rcases List.mem_cons.mp member with rfl | member
    · exact built g result
    · exact (orderly.graphs g member).grows grows
  · exact (orderly.graphs g member).grows grows

/-- A graph that is linked is one that was built, and the link went well. -/
theorem link_cases (setup : Setup κ σ ℓ) (site : Site κ σ ℓ) (n : Nat) :
    site.make setup (.link n) = site ∨ ∃ g links, g ∈ site.graphs ∧
      Links.link ⟨site.registry, site.world.store⟩ g = .ok links ∧
      site.make setup (.link n) = { site with
        engine := { site.engine with registry := links.registry }
        world := site.world.become links.store
        linked := ⟨g⟩ :: site.linked } := by
  simp only [Site.make]
  cases named : site.graphs[n]? with
  | none => exact .inl rfl
  | some g =>
    unfold Engine.link
    cases result : Links.link ⟨site.engine.registry, site.world.store⟩ g with
    | error e =>
      left
      simp only [bind, Except.bind, result]
    | ok links =>
      right
      exact ⟨g, links, List.mem_of_getElem? named, result, by
        simp only [bind, Except.bind, pure, Except.pure, result]⟩

theorem link (orderly : Orderly setup site) (n : Nat) :
    Orderly setup (site.make setup (.link n)) := by
  rcases link_cases setup site n with same | ⟨g, links, member, ran, made⟩
  · rw [same]
    exact orderly
  rw [made]
  have faithful := orderly.graphs g member
  obtain ⟨joined, linkage⟩ := Links.joined_of_link orderly.linkage faithful ran
  obtain ⟨housed, extends_, homes⟩ := Links.housed_of_link orderly.housed orderly.stocked ran
  have unlinked : ∀ m ∈ (⟨site.registry, site.world.store⟩ : Links κ).pending g,
      ∃ i, site.registry.get? m = some i ∧ i.isLinked = false := fun m member =>
    (Links.mem_pending.mp member).2
  have grows : site.world.store.Grows links.store := extends_.grows
  have lasting := Registry.Joined.lasting joined unlinked
  have events : (site.world.become links.store).past.events =
      links.store :: site.world.past.events := Chronicle.events_add _ _
  refine ⟨?_, linkage, orderly.settled.joined orderly.linkage joined unlinked, fun g' member => ?_,
    fun l member => ?_, housed, fun s told => ?_, ?_, ?_, fun m e failed => ?_⟩
  · exact joined.reassigned.stocked orderly.stocked
  · exact joined.reassigned.faithful (orderly.graphs g' member)
  · rcases List.mem_cons.mp member with rfl | member
    · exact (joined.linked _).mpr (Links.linked_or_pending faithful faithful.drawn.entry)
    · exact (joined.linked _).mpr (.inl (orderly.linked l member))
  · rw [events, List.mem_cons] at told
    rcases told with rfl | told
    · exact ⟨housed.sound, .refl _⟩
    · obtain ⟨sound, onward⟩ := orderly.past s told
      refine ⟨sound.rehouse fun e record home => ?_, onward.trans grows⟩
      apply (homes e record home).imp_right
      intro later
      exact Array.getElem?_eq_none (Nat.le_trans onward.size_le later)
  · rw [events]
    exact List.mem_cons_self
  · have once : links.registry.EnteredOnce := by
      unfold Registry.EnteredOnce
      rw [joined.entered]
      exact ⟨orderly.entered.1, fun x member => lasting.begun (orderly.entered.2 x member)⟩
    exact once
  · refine lasting.raised (orderly.raised m e ?_)
    rwa [← joined.reassigned.progressOf?]

/-- The evaluation of a linked graph leaves what its traversal leaves. -/
theorem make_evaluate {n : Nat} {l : LinkedGraph} {outcome : Option (Except EvalError Unit)}
    {machine : Machine κ σ} (named : site.linked[n]? = some l) :
    Machine.evaluate setup.interpreter (site.engine.traversals + 1) l.graph.entry
      ⟨site.registry, site.world⟩ = (outcome, machine) →
    site.make setup (.evaluate n) = match outcome with
      | some _ => { site with
          engine := ⟨machine.registry, site.engine.traversals + 1⟩, world := machine.world }
      | none => { site with world := machine.world } := by
  intro ran
  unfold registry at ran
  simp only [Site.make, named, Engine.evaluate, ran]
  cases outcome <;> rfl

/-- A module that is evaluated is one that was linked. -/
theorem evaluate_cases (setup : Setup κ σ ℓ) (site : Site κ σ ℓ) (n : Nat) :
    site.make setup (.evaluate n) = site ∨ ∃ l outcome machine, l ∈ site.linked ∧
      Machine.evaluate setup.interpreter (site.engine.traversals + 1) l.graph.entry
        ⟨site.registry, site.world⟩ = (outcome, machine) ∧
      site.make setup (.evaluate n) = match outcome with
        | some _ => { site with
            engine := ⟨machine.registry, site.engine.traversals + 1⟩, world := machine.world }
        | none => { site with world := machine.world } := by
  cases named : site.linked[n]? with
  | none => exact .inl (by simp only [Site.make, named])
  | some l =>
    rcases ran : Machine.evaluate setup.interpreter (site.engine.traversals + 1) l.graph.entry
      ⟨site.registry, site.world⟩ with ⟨outcome, machine⟩
    exact .inr ⟨l, outcome, machine, List.mem_of_getElem? named, ran, make_evaluate named ran⟩

/-- What an evaluation does to an orderly site. -/
structure Evaluated (setup : Setup κ σ ℓ) (site : Site κ σ ℓ) (l : LinkedGraph)
    (outcome : Option (Except EvalError Unit)) (machine : Machine κ σ) : Prop where
  leads : World.Leads (Store.Safe site.registry.Home) site.world machine.world
  raised : ∀ e, outcome = some (.error e) → Machine.Raised setup.interpreter site.registry e
  advanced : ∀ result, outcome = some result → site.registry.Advanced result machine.registry

/-- An evaluation follows the plain search from its entry. -/
theorem follows (orderly : Orderly setup site) {l : LinkedGraph} (member : l ∈ site.linked)
    (traversal : Nat) : ∃ order stop after,
      PostOrder site.registry [] [l.graph.entry] [] order stop after ∧
      Machine.Followed setup.interpreter site.registry traversal [] after order stop site.registry
        site.world (Machine.evaluate setup.interpreter traversal l.graph.entry
          ⟨site.registry, site.world⟩) :=
  Machine.evaluate_follows orderly.linkage orderly.settled (orderly.linked l member)

theorem evaluated (orderly : Orderly setup site) {l : LinkedGraph} (member : l ∈ site.linked)
    {traversal : Nat} {outcome : Option (Except EvalError Unit)} {machine : Machine κ σ}
    (ran : Machine.evaluate setup.interpreter traversal l.graph.entry ⟨site.registry, site.world⟩ =
      (outcome, machine)) : Evaluated setup site l outcome machine := by
  have linked := orderly.linked l member
  obtain ⟨order, stop, after, search, followed⟩ := orderly.follows member traversal
  rw [ran] at followed
  have inside := search.stays (fun m target held => (orderly.linkage.closed m held).2 target)
    (by simpa using linked)
  have outcomes : World.Leads (Store.Safe site.registry.Home) site.world
      (Machine.runSearch setup.interpreter site.registry stop order site.world).2.2 ∧ ∀ e,
        (Machine.runSearch setup.interpreter site.registry stop order site.world).2.1 =
            some (.error e) →
          stop = some e ∨ Machine.Raised setup.interpreter site.registry e :=
    Machine.leads_runSearch orderly.stocked orderly.housed inside
  obtain ⟨leads, raised⟩ := outcomes
  refine ⟨?_, fun e fails => ?_, fun result ends => ?_⟩
  · have same : machine.world = _ := followed.world
    rw [same]
    exact leads
  · have same : outcome = _ := followed.outcome
    rw [same] at fails
    rcases raised e fails with stopped | raised
    · obtain ⟨m, recorded⟩ := search.stopped e stopped
      exact orderly.raised m e recorded
    · exact raised
  · subst ends
    exact Machine.advanced_of_followed orderly.linkage orderly.settled search followed

theorem evaluate (orderly : Orderly setup site) (n : Nat) :
    Orderly setup (site.make setup (.evaluate n)) := by
  rcases evaluate_cases setup site n with same | ⟨l, outcome, machine, member, ran, made⟩
  · rw [same]
    exact orderly
  rw [made]
  obtain ⟨leads, raised, advanced⟩ := orderly.evaluated member ran
  cases outcome with
  | none => exact orderly.world leads
  | some result =>
    have advanced := advanced result rfl
    have homes := advanced.same.sameHomes
    have lasting := advanced.lasting
    refine ⟨advanced.same.stocked orderly.stocked, advanced.same.linkage orderly.linkage,
      advanced.settled, fun g held => advanced.same.faithful (orderly.graphs g held),
      fun l' held => advanced.same.linked_iff.mpr (orderly.linked l' held),
      homes.housed leads.present orderly.housed, fun s told => ?_, leads.told orderly.present,
      advanced.enteredOnce orderly.entered, fun m e failed => ?_⟩
    · obtain ⟨sound, onward⟩ := past_leads orderly.housed.sound orderly.past leads s told
      exact ⟨sound.rehouse fun e record home => .inl (homes.home_iff.mp home), onward⟩
    · rcases advanced.failed m e failed with before | now
      · exact lasting.raised (orderly.raised m e before)
      · exact lasting.raised (raised e (congrArg some now))

/-- Every call keeps a site orderly. -/
theorem make (orderly : Orderly setup site) (call : Call κ σ ℓ) :
    Orderly setup (site.make setup call) := by
  cases call with
  | build entry => exact orderly.build entry
  | link n => exact orderly.link n
  | evaluate n => exact orderly.evaluate n
  | act program => exact orderly.act program
  | restock source => exact { orderly with }

theorem run (orderly : Orderly setup site) (calls : List (Call κ σ ℓ)) :
    Orderly setup (site.run setup calls) := by
  induction calls generalizing site with
  | nil => exact orderly
  | cons call rest ih => exact ih (orderly.make call)

/-- Every state between two calls is orderly. -/
theorem of_run (setup : Setup κ σ ℓ) (memo : σ) (source : ℓ) (calls : List (Call κ σ ℓ)) :
    Orderly setup ((Site.start memo source).run setup calls) :=
  (start memo source).run calls

/-- Between any two calls, the names of linked modules can be resolved. -/
theorem resolvable (orderly : Orderly setup site) :
    site.registry.Resolvable site.world.store site.registry.Linked :=
  orderly.housed.resolvable orderly.stocked orderly.linkage.closed

end Site.Orderly

/-! ## A small history -/

namespace Sample

/-- A module with a global, which it exports. -/
def counter : Record Unit where
  requested := []
  imports := []
  exports := [⟨"n", .global, .numeric ⟨.i32, true⟩, .own "n"⟩]
  stars := []
  body := .binary ⟨[⟨"n", ⟨.i32, true⟩, .constant (.i32 7)⟩], [], [], [], [], [], none⟩

/-- A module that imports the global and gives it on. -/
def reader : Record Unit where
  requested := ["counter"]
  imports := [⟨"counter", "n", "seen", .global, .numeric ⟨.i32, true⟩⟩]
  exports := [⟨"again", .global, .numeric ⟨.i32, true⟩, .observed "seen"⟩]
  stars := []
  body := .binary ⟨[], [], [], [], [], [], none⟩

/-- Specifiers are identities, and code does nothing. -/
def setup : Setup Unit Unit Unit where
  resolver specifier _ := .ok specifier
  loader identity source := (.record (if identity = "counter" then counter else reader), source)
  limits := ⟨1, 10⟩
  interpreter := ⟨⟨fun _ _ => .done (.ok ()), fun _ _ _ => .done (.ok .undefined),
    fun _ _ _ => .done (.ok [])⟩, 1⟩

/-- The reader is built and linked. -/
def preparation : List (Call Unit Unit Unit) := [.build "reader", .link 0]

/-- The engine when the reader is ready to be evaluated. -/
def prepared : Site Unit Unit Unit := (Site.start () ()).run setup preparation

end Sample
end MixedModules
