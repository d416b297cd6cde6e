import MixedModules.Proofs.Link.Reserving
import MixedModules.Proofs.Link.Sharing

/-! What linked modules are connected to.

An export of a script module is the slot of one of its own bindings, and an import is bound
to the one slot that its name leads to. Modules that are linked keep their dependencies and
exports, so both stay so whatever is loaded, linked and evaluated later. -/
namespace MixedModules
open Relation

variable {κ : Type}

/-- The exports of a script module have the slots of its own bindings. -/
def Record.Stands (record : Record κ) (environment : Environment) : Prop :=
  record.kind = .script → ∀ decl ∈ record.exports, ∀ i, environment.exports.get? decl.name = some i →
    environment.locals.get? (decl.binding .script) = some i

theorem Store.allocate_stands (s : Store κ) (identity : String) {record : Record κ}
    (fits : record.WellFormed) : ∃ environment,
      (s.allocate identity record).2.environment? (s.allocate identity record).1 = some environment ∧
      record.Stands environment := by
  have declares := apart_declareFunctions identity ⟨s.environments.size⟩ (.empty s) record.exports
  have shares := shares_exportSlots identity fits (fun _ member => member) (.start declares)
  refine ⟨_, Array.getElem?_push_size, fun script decl declared i held => ?_⟩
  obtain ⟨other, member, named, given⟩ := shares.stands decl.name i held
  have locals : ∀ (bindings : Bindings) kind, kind = .script → bindings.given kind = bindings.locals := by
    rintro _ _ rfl
    rfl
  have binding : decl.binding record.kind = decl.binding .script := by rw [script]
  rw [fits.export_unique member declared named, locals _ _ script, binding] at given
  exact given

namespace Registry

variable {r r' : Registry κ} {s s' : Store κ} {q q' : Question} {m : ModuleId} {slot : SlotId}

/-- Modules that are linked keep their records, their dependencies and their environments. -/
def Retains (r r' : Registry κ) : Prop :=
  ∀ m i, r.Linked m → r.get? m = some i → ∃ i', r'.get? m = some i' ∧ i'.record = i.record ∧
    i'.dependencies = i.dependencies ∧ i'.environment = i.environment

theorem Grows.retains {may : ModuleId → Prop} (grows : r.Grows may r') (linkage : r.Linkage) :
    r.Retains r' := by
  intro m i linked known
  obtain ⟨⟨dependencies, j, known', resolved⟩, _⟩ := linkage.closed m linked
  cases known.symm.trans known'
  exact ⟨i, grows.dependencies known resolved, rfl, rfl, rfl⟩

theorem SameModules.retains (same : r.SameModules r') : r.Retains r' := by
  intro m i _ known
  obtain ⟨progress, change⟩ := same.modules m
  rw [known] at change
  exact ⟨_, change, rfl, rfl, rfl⟩

theorem Retains.refl (r : Registry κ) : r.Retains r := fun _ i _ known => ⟨i, known, rfl, rfl, rfl⟩

namespace Retains

variable (retains : r.Retains r')

include retains

theorem leadsTo_iff (linked : r.Linked q.1) : r'.LeadsTo q q' ↔ r.LeadsTo q q' := by
  obtain ⟨i, there, _⟩ := id linked
  obtain ⟨i', known', record, dependencies, _⟩ := retains q.1 i linked there
  have same : ∀ specifier, i'.dependency? specifier = i.dependency? specifier := fun _ => by
    rw [Instance.dependency?, dependencies, Instance.dependency?]
  refine ⟨fun edge => ?_, fun edge => ?_⟩
  · cases edge with
    | indirect known declared named source resolved =>
      cases known.symm.trans known'
      exact .indirect there (record ▸ declared) named source ((same _).symm.trans resolved)
    | star known undeclared passedOn listed resolved =>
      cases known.symm.trans known'
      exact .star there (record ▸ undeclared) passedOn (record ▸ listed)
        ((same _).symm.trans resolved)
  · cases edge with
    | indirect known declared named source resolved =>
      cases known.symm.trans there
      exact .indirect known' (record ▸ declared) named source ((same _).trans resolved)
    | star known undeclared passedOn listed resolved =>
      cases known.symm.trans there
      exact .star known' (record ▸ undeclared) passedOn (record ▸ listed) ((same _).trans resolved)

/-- What a name of a linked module leads to it has led to before. -/
theorem reach (ready : r.Resolvable s r.Linked) (linked : r.Linked q.1)
    (path : ReflTransGen r'.LeadsTo q q') : ReflTransGen r.LeadsTo q q' ∧ r.Linked q'.1 := by
  induction path with
  | refl => exact ⟨.refl, linked⟩
  | tail _ edge ih =>
    obtain ⟨before, inside⟩ := ih
    have edge := (retains.leadsTo_iff inside).mp edge
    exact ⟨before.tail edge, ready.step inside edge⟩

/-- What a name of a linked module has led to it leads to now. -/
theorem reached (ready : r.Resolvable s r.Linked) (linked : r.Linked q.1)
    (path : ReflTransGen r.LeadsTo q q') : ReflTransGen r'.LeadsTo q q' ∧ r.Linked q'.1 := by
  induction path with
  | refl => exact ⟨.refl, linked⟩
  | tail _ edge ih =>
    obtain ⟨now, inside⟩ := ih
    exact ⟨now.tail ((retains.leadsTo_iff inside).mpr edge), ready.step inside edge⟩

theorem gives_iff (housed : Links.Housed ⟨r, s⟩) (grows : s.Grows s') (linked : r.Linked q.1) :
    r'.Gives s' q slot ↔ r.Gives s q slot := by
  obtain ⟨i, there, _⟩ := id linked
  obtain ⟨i', known', record, _, environment⟩ := retains q.1 i linked there
  refine ⟨fun ⟨⟨j, known, decl, declared, named, own⟩, held⟩ => ?_,
    fun ⟨⟨j, known, decl, declared, named, own⟩, held⟩ => ?_⟩
  · cases known.symm.trans known'
    obtain ⟨_, e, after, known'', home, present, given⟩ := exportSlot?_eq_some_iff.mp held
    cases known.symm.trans known''
    rw [environment] at home
    obtain ⟨before, here, _⟩ := housed.present q.1 i e there home
    obtain ⟨entities, kept⟩ := grows.environments e before here
    cases present.symm.trans kept
    exact ⟨⟨i, there, decl, record ▸ declared, named, own⟩,
      exportSlot?_eq_some_iff.mpr ⟨i, e, before, there, home, here, given⟩⟩
  · cases known.symm.trans there
    obtain ⟨_, e, before, known'', home, here, given⟩ := exportSlot?_eq_some_iff.mp held
    cases known.symm.trans known''
    obtain ⟨entities, kept⟩ := grows.environments e before here
    exact ⟨⟨i', known', decl, record ▸ declared, named, own⟩,
      exportSlot?_eq_some_iff.mpr ⟨i', e, _, known', environment.trans home, kept, given⟩⟩

end Retains

end Registry

namespace Links

variable {l l' : Links κ} {g : ModuleGraph} {m : ModuleId} {i : Instance κ} {e : EnvironmentId}
  {environment : Environment} {b : ImportBinding}

/-- What the import of a module is bound to: the slot that its name leads to, and no other. It
is that of an export of the origin, and is read in place if the origin is of the same kind.
What a script module reads in place is an own binding of a module. -/
structure Sources (l : Links κ) (i : Instance κ) (b : ImportBinding) : Prop where
  leads : ∃ target, i.dependency? b.specifier = some target ∧ l.registry.Linked target ∧
    ∀ q slot, ReflTransGen l.registry.LeadsTo (target, b.name) q → l.registry.Gives l.store q slot →
      slot = b.target
  origin : ∃ target name, i.dependency? b.specifier = some target ∧
    ReflTransGen l.registry.LeadsTo (target, b.name) (b.origin, name) ∧
    l.registry.Gives l.store (b.origin, name) b.target
  mode : ∃ owner, l.registry.get? b.origin = some owner ∧ (b.mode = .live ↔ i.kind = owner.kind)
  live : i.kind = .script → b.mode = .live → l.store.Assignable b.target

/-- Exports and imports of all linked modules are connected as they declare. -/
structure Wired (l : Links κ) : Prop where
  stands : ∀ m i e environment, l.Lives m i e environment → i.record.Stands environment
  sources : ∀ m i e environment, l.Lives m i e environment →
    ∀ b ∈ environment.imports.values, l.Sources i b

/-! ## Modules that were linked before -/

section Old

variable {r r' : Registry κ} {s s' : Store κ}

/-- A module that was linked is the same now, up to its entities. -/
theorem Housed.lived (housed : Housed ⟨r, s⟩) (retains : r.Retains r') (grows : s.Grows s')
    (linked : r.Linked m) (lives : Lives ⟨r', s'⟩ m i e environment) : ∃ i' before,
      Lives ⟨r, s⟩ m i' e before ∧ i.record = i'.record ∧ i.dependencies = i'.dependencies ∧
      ∃ entities, environment = { before with entities } := by
  obtain ⟨i', there, _⟩ := id linked
  obtain ⟨_, known, record, dependencies, home⟩ := retains m i' linked there
  cases lives.known.symm.trans known
  have home := home.symm.trans lives.home
  obtain ⟨before, here, _⟩ := housed.present m i' e there home
  obtain ⟨entities, kept⟩ := grows.environments e before here
  exact ⟨i', before, ⟨there, home, here⟩, record, dependencies, entities,
    Option.some.inj (lives.present.symm.trans kept)⟩

theorem Sources.retained {i' : Instance κ} (sources : Sources ⟨r, s⟩ i' b) (housed : Housed ⟨r, s⟩)
    (ready : r.Resolvable s r.Linked) (retains : r.Retains r') (grows : s.Grows s')
    (record : i.record = i'.record) (dependencies : i.dependencies = i'.dependencies) :
    Sources ⟨r', s'⟩ i b := by
  obtain ⟨target, depends, linked, only⟩ := sources.leads
  obtain ⟨_, name, depends', reaches, provides⟩ := sources.origin
  cases depends.symm.trans depends'
  obtain ⟨reaches, ends⟩ := retains.reached ready (q := (target, b.name)) linked reaches
  have same : i.dependency? b.specifier = some target := by
    rwa [Instance.dependency?, dependencies, ← Instance.dependency?]
  have kind : i.kind = i'.kind := by rw [Instance.kind, record, ← Instance.kind]
  refine ⟨⟨target, same, ?_, fun q slot path gives => ?_⟩, ⟨target, name, same, reaches, ?_⟩, ?_,
    fun script live => ?_⟩
  · obtain ⟨j, there, held⟩ := id linked
    obtain ⟨j', known, _, _, home⟩ := retains target j linked there
    exact ⟨j', known, by rwa [Instance.isLinked, home, ← Instance.isLinked]⟩
  · obtain ⟨path, inside⟩ := retains.reach ready (q := (target, b.name)) linked path
    exact only q slot path ((retains.gives_iff housed grows inside).mp gives)
  · exact (retains.gives_iff housed grows ends).mpr provides
  · obtain ⟨owner, known, mode⟩ := sources.mode
    obtain ⟨owner', known', record', _⟩ := retains b.origin owner ends known
    have kind' : owner'.kind = owner.kind := by rw [Instance.kind, record', ← Instance.kind]
    exact ⟨owner', known', by rw [mode, kind, kind']⟩
  · have script : i'.kind = .script := kind ▸ script
    obtain ⟨e, environment, known, member⟩ := sources.live script live
    obtain ⟨entities, known'⟩ := grows.environments e environment known
    exact ⟨e, _, known', member⟩

/-- Modules that were linked before are connected as they were. -/
theorem Wired.retained (wired : Wired ⟨r, s⟩) (housed : Housed ⟨r, s⟩)
    (ready : r.Resolvable s r.Linked) (retains : r.Retains r') (grows : s.Grows s')
    (linked : r.Linked m) (lives : Lives ⟨r', s'⟩ m i e environment) :
    i.record.Stands environment ∧ ∀ b ∈ environment.imports.values, Sources ⟨r', s'⟩ i b := by
  obtain ⟨i', before, lived, record, dependencies, entities, rfl⟩ :=
    housed.lived retains grows linked lives
  refine ⟨?_, fun b member => ?_⟩
  · rw [record]
    exact wired.stands m i' e before lived
  · exact (wired.sources m i' e before lived b member).retained housed ready retains grows record
      dependencies

/-- Where no module is linked anew, all are connected as they were. -/
theorem Wired.transfer (wired : Wired ⟨r, s⟩) (housed : Housed ⟨r, s⟩)
    (ready : r.Resolvable s r.Linked) (retains : r.Retains r') (grows : s.Grows s')
    (same : ∀ m, r'.Linked m → r.Linked m) : Wired ⟨r', s'⟩ :=
  ⟨fun m _ _ _ lives =>
    (wired.retained housed ready retains grows (same m lives.linked) lives).1,
    fun m _ _ _ lives =>
    (wired.retained housed ready retains grows (same m lives.linked) lives).2⟩

end Old

/-! ## Linking -/

theorem stands_stage (housed : l.Housed)
    (fits : ∀ i, l.registry.get? m = some i → i.record.WellFormed)
    (stands : ∀ m i e environment, l.Lives m i e environment → i.record.Stands environment) :
    ∀ x j e environment, (l.stage m).Lives x j e environment → j.record.Stands environment := by
  intro x j e environment lives
  rcases lives_stage housed fits lives with old | ⟨i, known, record, made⟩
  · exact stands x j e environment old
  · obtain ⟨_, made', holds⟩ := l.store.allocate_stands i.identity (fits i known)
    cases made.symm.trans made'
    exact record ▸ holds

theorem stands_staged (ms : List ModuleId) (housed : l.Housed)
    (fits : ∀ x i, l.registry.get? x = some i → i.record.WellFormed)
    (stands : ∀ m i e environment, l.Lives m i e environment → i.record.Stands environment) :
    ∀ x j e environment, (ms.foldl stage l).Lives x j e environment → j.record.Stands environment := by
  induction ms generalizing l with
  | nil => exact stands
  | cons m rest ih =>
    refine ih (housed_stage housed (fits m) (Nat.le_refl _)).1 (fun x j held => ?_)
      (stands_stage housed (fits m) stands)
    obtain ⟨i, known, same⟩ := record_stage held
    exact same ▸ fits x i known

/-- Binding a module gives an environment imports, and nothing else. -/
theorem scopes_bindModule (ran : bindModule l m = .ok l')
    (present : l'.store.environment? e = some environment) : ∃ before,
      l.store.environment? e = some before ∧
        environment = { before with imports := environment.imports } := by
  rcases bindModule_cases ran with rfl | ⟨i, mine, imports, between, _, _, binds, rfl⟩
  · exact ⟨environment, present, rfl⟩
  obtain ⟨adds, _⟩ := makes_resolveImports (.refl l.store)
    (⟨by simp [Scope.values, Scope.empty], by simp [Scope.values, Scope.empty]⟩) binds
  rw [Store.environment?_modifyEnvironment, adds.environment?] at present
  split at present
  · obtain ⟨before, there, rfl⟩ := Option.map_eq_some_iff.mp present
    exact ⟨before, there, rfl⟩
  · exact ⟨environment, present, rfl⟩

theorem scopes_bindAll {ms : List ModuleId} (ran : ms.foldlM bindModule l = .ok l')
    (present : l'.store.environment? e = some environment) : ∃ before,
      l.store.environment? e = some before ∧
        environment = { before with imports := environment.imports } := by
  induction ms generalizing l with
  | nil =>
    cases ran
    exact ⟨environment, present, rfl⟩
  | cons m rest ih =>
    rw [List.foldlM_cons] at ran
    obtain ⟨between, first, others⟩ := bind_eq_ok ran
    obtain ⟨middle, there, same⟩ := ih others
    obtain ⟨before, here, same'⟩ := scopes_bindModule first there
    refine ⟨before, here, ?_⟩
    rw [same, same']

/-- What was granted is the slot that the name of an import leads to. -/
theorem Binds.sources {decl : ImportDecl} (binds : l.Binds m decl b) (housed : l.Housed)
    (stocked : l.registry.Stocked)
    (closed : ∀ m, l.registry.Linked m → (∃ dependencies, l.registry.Resolved m dependencies) ∧
      ∀ target, l.registry.DependsOn m target → l.registry.Linked target)
    (stands : ∀ m i e environment, l.Lives m i e environment → i.record.Stands environment)
    (linked : l.registry.Linked m) (known : l.registry.get? m = some i)
    (declared : decl ∈ i.record.imports) : l.Sources i b := by
  have ready := housed.resolvable stocked closed
  have requested := ((ready.wellFormed linked known).imports decl declared).requested
  obtain ⟨target, depends, inside⟩ := ready.closed m i linked known decl.specifier requested
  have verdict := Registry.verdict_resolve ready inside decl.name
  obtain ⟨known', depends', resolved, owned, _⟩ := binds.grants
  cases known.symm.trans known'
  cases depends.symm.trans depends'
  rw [resolved] at verdict
  cases verdict with
  | one name reached gives only =>
    obtain ⟨j, owner, known'', owned', _, same⟩ := binds.mode
    cases known.symm.trans known''
    have specified : i.dependency? b.specifier = some target := by rw [binds.specifier, depends]
    refine ⟨⟨target, specified, inside, fun q slot path given => ?_⟩,
      ⟨target, name, specified, by rwa [binds.name], gives⟩, ⟨owner, owned', same⟩,
      fun script live => ?_⟩
    · rw [binds.name] at path
      exact only q path slot given
    · have kind : owner.record.kind = .script := (same.mp live).symm.trans script
      obtain ⟨⟨_, there, exported, declared', named, _⟩, held⟩ := gives
      obtain ⟨_, e, environment, there', home, present, given⟩ := Registry.exportSlot?_eq_some_iff.mp held
      cases owned'.symm.trans there
      cases owned'.symm.trans there'
      have own := stands _ owner e environment ⟨owned', home, present⟩ kind exported declared'
        b.target (named ▸ given)
      exact ⟨e, environment, present, Store.mem_values_of_get? own⟩

section Whole

variable (wired : l.Wired) (housed : l.Housed) (stocked : l.registry.Stocked)
  (linkage : l.registry.Linkage) (faithful : g.Faithful l.registry)

include wired housed stocked

/-- The exports of script modules stand for own bindings when a graph is linked. -/
theorem stands_of_link (ran : link l g = .ok l') :
    ∀ x j e environment, l'.Lives x j e environment → j.record.Stands environment := by
  obtain ⟨_, bound, binds, rfl⟩ := link_eq_ok ran
  intro x j e environment ⟨known, home, present⟩
  obtain ⟨component, change⟩ := Registry.get?_addComponents
    (g.components (l.pending g).contains) bound.registry x
  rw [known, registry_bindAll binds] at change
  obtain ⟨i, before, rfl⟩ := Option.map_eq_some_iff.mp change.symm
  obtain ⟨there, here, same⟩ := scopes_bindAll binds present
  have stands := stands_staged (l.pending g) housed (fun x i known =>
    Record.wellFormed_of_validate (stocked.checked x i known)) wired.stands x i e there
      ⟨before, home, here⟩
  rw [same]
  exact stands

include linkage faithful

/-- Linking connects the modules that were not linked, and leaves the others as they were. -/
theorem Wired.link (ran : Links.link l g = .ok l') : l'.Wired := by
  obtain ⟨housed', extends_, _⟩ := housed_of_link housed stocked ran
  have stands := stands_of_link wired housed stocked ran
  refine ⟨stands, fun m i e environment lives b member => ?_⟩
  obtain ⟨joined, linkage'⟩ := joined_of_link linkage faithful ran
  have ready := housed.resolvable stocked linkage.closed
  by_cases pending : m ∈ l.pending g
  · have decision := decision_link housed stocked linkage faithful
    rw [ran] at decision
    cases decision with | granted _ _ completes => ?_
    have binds := completes.bound m pending i e environment lives.known lives.home lives.present
    obtain ⟨entry, inside, rfl⟩ := List.mem_map.mp member
    obtain ⟨decl, declared, _, bound⟩ := exists_of_forall₂ binds entry inside
    exact bound.sources housed' (joined.reassigned.stocked stocked)
      linkage'.closed stands lives.linked lives.known declared
  · have linked := ((joined.linked m).mp lives.linked).resolve_right pending
    have retains : l.registry.Retains l'.registry := by
      intro x j held known
      exact ⟨j, (joined.kept x (not_mem_pending held)).trans known, rfl, rfl, rfl⟩
    exact (wired.retained housed ready retains extends_.grows linked lives).2 b member

end Whole

end Links
end MixedModules
