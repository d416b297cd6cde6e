import MixedModules.Proofs.Evaluation.Instantiation
import MixedModules.Proofs.Evaluation.Publishing
import MixedModules.Proofs.History.Entanglement
import MixedModules.Proofs.History.Steps
import MixedModules.Proofs.Link.Namespaces

/-! What a binary module has when it is run.

Linking binds each import that a record declares, and no later call takes one away. So when a
module has observed its imports, each has its entity, and when it comes to its exports there is
an entity for every name that they may have. -/
namespace MixedModules

variable {κ σ ℓ : Type}

/-- Where no module is linked anew, all have the imports that they had. -/
theorem Links.Supplies.transfer {r r' : Registry κ} {s s' : Store κ} (supplies : Supplies ⟨r, s⟩)
    (housed : Housed ⟨r, s⟩) (retains : r.Retains r') (grows : s.Grows s')
    (same : ∀ m, r'.Linked m → r.Linked m) : Supplies ⟨r', s'⟩ := by
  intro m i e environment lives
  obtain ⟨j, before, lived, record, _, entities, rfl⟩ :=
    housed.lived retains grows (same m lives.linked) lives
  exact record ▸ supplies m j e before lived

namespace Site

variable {setup : Setup κ σ ℓ} {site : Site κ σ ℓ} {n : Nat} {m : ModuleId} {rest : List ModuleId}
  {moment : Machine κ σ} {i : Instance κ} {e : EnvironmentId} {environment : Environment}
  {body : BinaryBody κ} {w w₀ : World κ σ}

/-! ## Imports of linked modules -/

theorem Orderly.supplies_make (orderly : Orderly setup site)
    (supplies : Links.Supplies ⟨site.registry, site.world.store⟩) (call : Call κ σ ℓ) :
    Links.Supplies ⟨(site.make setup call).registry, (site.make setup call).world.store⟩ := by
  cases call with
  | build entry =>
    obtain ⟨grows, _⟩ := Orderly.build_yields setup site entry orderly.stocked
    exact supplies.transfer orderly.housed (grows.retains orderly.linkage) (.refl _)
      fun _ => grows.linked_iff.mp
  | link n =>
    rcases Orderly.link_cases setup site n with same | ⟨g, links, member, ran, made⟩
    · rw [same]
      exact supplies
    · rw [made]
      exact supplies.link orderly.housed orderly.stocked orderly.linkage (orderly.graphs g member) ran
  | evaluate n =>
    rcases Orderly.evaluate_cases setup site n with same | ⟨l, outcome, machine, member, ran, made⟩
    · rw [same]
      exact supplies
    · have evaluated := orderly.evaluated member ran
      have grows := evaluated.leads.present.1
      rw [made]
      cases outcome with
      | none => exact supplies.transfer orderly.housed (.refl _) grows fun _ linked => linked
      | some result =>
        have same := (evaluated.advanced result rfl).same
        exact supplies.transfer orderly.housed same.retains grows fun _ => same.linked_iff.mp
  | act program =>
    have grows := (Orderly.leads_act setup site program).present.1
    exact supplies.transfer orderly.housed (.refl _) grows fun _ linked => linked
  | restock source => exact supplies

theorem supplies_of_run (setup : Setup κ σ ℓ) (memo : σ) (source : ℓ) (calls : List (Call κ σ ℓ)) :
    Links.Supplies ⟨((start memo source).run setup calls).registry,
      ((start memo source).run setup calls).world.store⟩ := by
  induction calls using List.reverseRecOn with
  | nil => intro m i e environment lives; cases lives.known
  | append_singleton calls call ih =>
    rw [run, List.foldl_append]
    exact (Orderly.of_run setup memo source calls).supplies_make ih call

/-! ## Modules that are run -/

/-- After a call, the environment of a module is still the home of its record only. -/
theorem Orderly.home_evaluate (orderly : Orderly setup site) (known : site.registry.get? m = some i)
    (home : i.environment = some e) : (site.make setup (.evaluate n)).registry.Home e i.record ∧
      ∀ other, (site.make setup (.evaluate n)).registry.Home e other → other = i.record := by
  obtain ⟨i', known', record, _, home'⟩ :=
    (orderly.retains_evaluate n).1 m i (Registry.linked_of_home known home) known
  have later : Orderly setup (site.make setup (.evaluate n)) := orderly.make (.evaluate n)
  exact ⟨⟨m, i', known', home'.trans home, record⟩, fun other lives =>
    (later.housed.unique known' (home'.trans home) lives).trans record⟩

/-- When a module is run, everything is as declared, and its environment is there. -/
theorem Enters.equips (enters : site.Enters setup n (m :: rest) moment) (orderly : Orderly setup site)
    (descends : site.world.Descends setup.interpreter site.registry.Home)
    (known : site.registry.get? m = some i) (home : i.environment = some e)
    (read : World.reading (fun s => s.environment e) moment.world = (some (.ok environment), w₀)) :
    w₀.store.Equips (site.make setup (.evaluate n)).registry.Home e environment [] ∧
      w₀.store.Reserved ∧ site.world.store.Grows w₀.store := by
  obtain ⟨before, after⟩ := enters.runs orderly known home
  obtain ⟨found, same⟩ := World.reading_eq_ok read
  rw [same]
  obtain ⟨past, events, lineage⟩ := before.descends descends
  -- The moment is one of the past when the call is over.
  have ran : World.Goes setup.interpreter site.registry.Home moment.world
      (World.runModule setup.interpreter e i.record moment.world).2 :=
    World.goes_runModule setup.interpreter ⟨m, i, known, home, rfl⟩ moment.world
  have told : moment.world.store ∈ (site.make setup (.evaluate n)).world.past.events :=
    (ran.since.trans after.since).subset (by simp [events])
  have now : moment.world.store ∈ moment.world.store :: past := List.mem_cons_self
  exact ⟨⟨((orderly.make (.evaluate n)).past _ told).1, lineage.intact _ now,
    ⟨environment.entities, Store.environment_eq_ok.mp found⟩, nofun⟩, lineage.reserved _ now,
    before.grows⟩

section Binary

variable (enters : site.Enters setup n (m :: rest) moment) (orderly : Orderly setup site)
  (descends : site.world.Descends setup.interpreter site.registry.Home)
  (supplies : Links.Supplies ⟨site.registry, site.world.store⟩)
  (known : site.registry.get? m = some i) (home : i.environment = some e)
  (shape : i.record.body = .binary body)

include enters orderly descends supplies known home shape

/-- When it has observed its imports, each that it declares has its entity. -/
theorem Enters.imported
    (read : World.reading (fun s => s.environment e) moment.world = (some (.ok environment), w₀))
    (observed : World.observeImports e environment w₀ = (some (.ok ()), w)) :
    w.store.Equips (site.make setup (.evaluate n)).registry.Home e environment
      (i.record.imports.map (·.localName)) ∧ environment.exports.values.Nodup := by
  have fits := Record.wellFormed_of_validate (orderly.stocked.checked m i known)
  obtain ⟨equips, reserved, grows⟩ := enters.equips orderly descends known home read
  obtain ⟨homed, unique⟩ := orderly.home_evaluate (n := n) known home
  obtain ⟨entities, present⟩ := equips.shows
  have apart : environment.exports.values.Nodup := by
    have binary : environment.kind = .binary :=
      (equips.sound.houses e i.record _ homed present).kind.trans (by simp [Record.kind, shape])
    exact (reserved.exports_apart present binary).1
  -- Each declared import is bound, and has its entity now.
  have inside : i.record.imports.map (·.localName) ⊆ environment.imports.values.map (·.localName) := by
    obtain ⟨before, there, _⟩ := orderly.housed.present m i e known home
    obtain ⟨_, kept⟩ := grows.environments e before there
    obtain ⟨_, _, _, _, imports, _⟩ :=
      Environment.mk.inj (Option.some.inj (present.symm.trans kept))
    rw [imports]
    exact (supplies m i e before ⟨known, home, there⟩).localNames
  exact ⟨(World.equips_observeImports fits homed unique shape equips observed).mono inside, apart⟩

/-- When it comes to its exports, all names have their entities. -/
theorem Enters.ends_furnish : (World.furnish setup.interpreter.calls e body).Ends moment.world
    (fun _ w => ∃ environment, w.store.Equips (site.make setup (.evaluate n)).registry.Home e
      environment (i.record.entityTypes.map (·.1))) fun _ _ => True := by
  have fits := Record.wellFormed_of_validate (orderly.stocked.checked m i known)
  obtain ⟨homed, unique⟩ := orderly.home_evaluate (n := n) known home
  constructor
  case failed => exact fun _ _ _ => trivial
  intro _ w' ran
  obtain ⟨environment, w₀, read, ran⟩ := Run.bind_eq_ok ran
  obtain ⟨_, w, observed, ran⟩ := Run.bind_eq_ok ran
  obtain ⟨equips, _⟩ :=
    enters.imported orderly descends supplies known home shape read observed
  exact ⟨environment,
    (World.ends_define setup.interpreter homed unique fits shape equips).done () w' ran⟩

/-- So none of its exports is refused, and the run succeeds. -/
theorem Enters.publishes
    (furnished : World.furnish setup.interpreter.calls e body moment.world = (some (.ok ()), w)) :
    ∃ s, Store.publishAll e i.record.exports w.store = .ok ((), s) ∧
      World.runModule setup.interpreter e i.record moment.world = (some (.ok ()), w.become s) := by
  have fits := Record.wellFormed_of_validate (orderly.stocked.checked m i known)
  obtain ⟨homed, _⟩ := orderly.home_evaluate (n := n) known home
  obtain ⟨environment, equips⟩ :=
    (enters.ends_furnish orderly descends supplies known home shape).done () w furnished
  obtain ⟨s, published⟩ := equips.publishesAll homed fits shape
  refine ⟨s, published, ?_⟩
  rw [World.runModule_binary_eq setup.interpreter e shape, Run.bind_apply, furnished]
  exact World.change_apply published

end Binary
end Site
end MixedModules
