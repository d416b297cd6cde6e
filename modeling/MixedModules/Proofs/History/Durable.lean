import MixedModules.Proofs.Evaluation.Finishing
import MixedModules.Proofs.History.Orderly
import MixedModules.Proofs.Link.Deciding
import MixedModules.Proofs.Link.Reserving

/-! Modules keep to what is theirs.

A module that waits has filled nothing, and it is run once. So whatever a history does,
entities stay and so do the values of slots that code cannot assign. A history is one
that can happen: an evaluation that never returns is the last call of it. -/
namespace MixedModules

variable {κ σ ℓ : Type}

/-! ## What is vacant -/

namespace Store

variable {s s' : Store κ} {e e' : EnvironmentId} {environment : Environment} {names : List String}

/-- Nothing is filled of what only the module of `e` fills. -/
def Untouched (s : Store κ) (e : EnvironmentId) : Prop :=
  ∀ environment, s.environment? e = some environment →
    (∀ name, environment.entities.get? name = none) ∧
      ∀ i ∈ environment.reserved, ∀ slot, s.slot? i = some slot → slot.value? = none

namespace Untouched

theorem vacant (untouched : s.Untouched e) (reserved : s.Reserved)
    (known : s.environment? e = some environment) (names : List String) :
    s.Vacant e names environment.reserved := by
  refine ⟨fun there known' name _ => ?_, fun i member => ⟨reserved.kept e environment i known member,
    (untouched environment known).2 i member⟩⟩
  cases known.symm.trans known'
  exact (untouched environment known).1 name

/-- What is filled elsewhere leaves it untouched. -/
theorem fills {slots : List SlotId} (untouched : s.Untouched e') (reserved : s.Reserved)
    (fills : s.Fills e names slots s') (apart : e' = e → names = [])
    (apart' : ∀ environment i, s.environment? e' = some environment → i ∈ environment.reserved →
      i ∉ slots) : s'.Untouched e' := by
  intro after known'
  obtain ⟨before, there, same, entities⟩ := fills.environments e' after known'
  have reserves : after.reserved = before.reserved := by rw [same]; rfl
  refine ⟨fun name => ?_, fun i member slot held => ?_⟩
  · rw [entities name fun same => by simp [apart same]]
    exact (untouched before there).1 name
  · rw [reserves] at member
    rw [fills.slots i (reserved.kept e' before i there member) (apart' before i there member)] at held
    exact (untouched before there).2 i member slot held

/-- Linking leaves what was untouched. -/
theorem laid (untouched : s.Untouched e) (reserved : s.Reserved)
    (known : s.environment? e = some environment) (laid : s.Laid s') : s'.Untouched e := by
  intro after known'
  cases (laid.environments e environment known).symm.trans known'
  obtain ⟨none, vacant⟩ := untouched environment known
  refine ⟨none, fun i member slot held => ?_⟩
  obtain ⟨slot', there⟩ := reserved.inside e environment i known member
  cases held.symm.trans (laid.slots i slot' there)
  exact vacant i member slot there

end Untouched

/-- What linking has made is untouched. -/
theorem Laid.untouched (laid : s.Laid s') (new : s.environment? e = none) : s'.Untouched e := by
  intro environment known
  obtain ⟨none, vacant⟩ := laid.fresh e environment known new
  refine ⟨fun name => ?_, fun i member slot held => ?_⟩
  · rw [none]
    rfl
  · rw [Slot.value?, vacant i member slot held]
    rfl

end Store

/-! ## What imports are bound to -/

/-- A binding of a declared import. -/
structure ImportBinding.Declared (b : ImportBinding) (decl : ImportDecl) : Prop where
  specifier : b.specifier = decl.specifier
  name : b.name = decl.name
  localName : b.localName = decl.localName
  kind : b.kind = decl.kind
  type : b.type = decl.type

/-- The imports of an environment are those that a record declares, in the same order. -/
def Record.Declares (record : Record κ) (environment : Environment) : Prop :=
  List.Forall₂ (fun decl entry => entry.1 = decl.localName ∧ entry.2.Declared decl) record.imports
    environment.imports.entries

namespace Record.Declares

variable {record : Record κ} {environment : Environment} {b : ImportBinding}

theorem names (declares : record.Declares environment) :
    environment.imports.values.map (·.localName) = record.imports.map (·.localName) ∧
      environment.imports.names = record.imports.map (·.localName) := by
  unfold Record.Declares at declares
  unfold Scope.values Scope.names
  generalize record.imports = decls, environment.imports.entries = entries at declares
  induction declares with
  | nil => exact ⟨rfl, rfl⟩
  | cons same _ ih =>
    simp only [List.map_cons]
    exact ⟨by rw [ih.1, same.2.localName], by rw [ih.2, same.1]⟩

/-- A module may have entities under names that are all different. -/
theorem entitled (declares : record.Declares environment) (fits : record.WellFormed) :
    (environment.entitled record).Nodup := by
  unfold Environment.entitled Record.defined
  rw [declares.names.1]
  cases shape : record.body with
  | script code => simpa using fits.importsDistinct
  | binary body =>
    have binary := fits.binary body shape
    refine List.Nodup.append fits.importsDistinct binary.distinct fun name imported defined => ?_
    obtain ⟨decl, declared, rfl⟩ := List.mem_map.mp imported
    obtain ⟨entry, held, same⟩ := List.mem_map.mp defined
    exact binary.unshadowed entry held decl declared same.symm

theorem labelled (declares : record.Declares environment) :
    ∀ entry ∈ environment.imports.entries, entry.1 = entry.2.localName := by
  unfold Record.Declares at declares
  generalize record.imports = decls, environment.imports.entries = entries at declares
  induction declares with
  | nil => simp
  | cons same _ ih => exact List.forall_mem_cons.mpr ⟨same.1.trans same.2.localName.symm, ih⟩

/-- An import is found under its local name. -/
theorem get? (declares : record.Declares environment) (fits : record.WellFormed)
    (member : b ∈ environment.imports.values) : environment.imports.get? b.localName = some b := by
  have distinct : environment.imports.names.Nodup := by
    rw [declares.names.2]
    exact fits.importsDistinct
  obtain ⟨entry, held, rfl⟩ := List.mem_map.mp member
  exact Scope.get?_of_mem distinct (declares.labelled entry held ▸ held)

theorem localName_of_get? {name : String} (declares : record.Declares environment)
    (held : environment.imports.get? name = some b) : b.localName = name := by
  obtain ⟨entry, found, rfl⟩ := Option.map_eq_some_iff.mp held
  have named : entry.1 = name := by simpa using List.find?_some found
  exact (declares.labelled entry (List.mem_of_find?_eq_some found)).symm.trans named

/-- Each declared import is bound. -/
theorem bound {decl : ImportDecl} (declares : record.Declares environment)
    (declared : decl ∈ record.imports) : ∃ b ∈ environment.imports.values, b.Declared decl := by
  obtain ⟨entry, held, _, bound⟩ := exists_of_forall₂ declares.flip decl declared
  exact ⟨entry.2, List.mem_map_of_mem held, bound⟩

theorem localNames (declares : record.Declares environment) :
    record.imports.map (·.localName) ⊆ environment.imports.values.map (·.localName) := by
  intro name member
  obtain ⟨decl, declared, rfl⟩ := List.mem_map.mp member
  obtain ⟨b, held, bound⟩ := declares.bound declared
  exact bound.localName ▸ List.mem_map_of_mem held

/-- A binding is that of the import with its local name. -/
theorem declared {decl : ImportDecl} (declares : record.Declares environment)
    (fits : record.WellFormed) (member : b ∈ environment.imports.values)
    (declared : decl ∈ record.imports) (named : decl.localName = b.localName) : b.Declared decl := by
  obtain ⟨entry, held, rfl⟩ := List.mem_map.mp member
  obtain ⟨other, declared', _, bound⟩ := exists_of_forall₂ declares entry held
  cases List.inj_on_of_nodup_map fits.importsDistinct declared declared'
    (named.trans bound.localName)
  exact bound

end Record.Declares

/-- All modules have the imports that they declare. -/
def Links.Supplies (l : Links κ) : Prop :=
  ∀ m i e environment, l.Lives m i e environment → i.record.Declares environment

/-- Linking binds the imports that the modules of a graph declare. -/
theorem Links.Supplies.link {l l' : Links κ} {g : ModuleGraph} (supplies : l.Supplies) (housed : l.Housed)
    (stocked : l.registry.Stocked) (linkage : l.registry.Linkage) (faithful : g.Faithful l.registry)
    (ran : Links.link l g = .ok l') : l'.Supplies := by
  intro m i e environment ⟨known, home, present⟩
  have decision := decision_link housed stocked linkage faithful
  rw [ran] at decision
  cases decision with | granted _ _ completes => ?_
  by_cases pending : m ∈ l.pending g
  · exact (completes.bound m pending i e environment known home present).imp fun decl entry bound =>
      ⟨bound.1, bound.2.specifier, bound.2.name, bound.2.localName, bound.2.kind, bound.2.type⟩
  · rw [completes.modules m pending] at known
    rw [completes.environments m i e pending known home] at present
    exact supplies m i e environment ⟨known, home, present⟩

/-! ## What holds of modules and the store -/

/-- Each linked module has its own environment with the imports that it declares, and slots
that only it fills. -/
structure Links.Tidy (l : Links κ) : Prop where
  housed : l.Housed
  reserved : l.store.Reserved
  declares : ∀ m i e environment, l.registry.get? m = some i → i.environment = some e →
    l.store.environment? e = some environment → i.record.Declares environment

/-- A module, if it is linked, has filled nothing. -/
def Registry.Waits (r : Registry κ) (s : Store κ) (m : ModuleId) : Prop :=
  ∀ i e, r.get? m = some i → i.environment = some e → s.Untouched e

namespace Links.Tidy

variable {r r' : Registry κ} {s s' : Store κ} {l l' : Links κ} {g : ModuleGraph}

/-- Where modules live as they did, they are as tidy as they were. -/
theorem sameHomes (tidy : Tidy ⟨r, s⟩) (same : r.SameHomes r') : Tidy ⟨r', s⟩ where
  housed := same.housed (.refl s) tidy.housed
  reserved := tidy.reserved
  declares m i e environment known home present := by
    obtain ⟨j, before, home', record⟩ := (same.homes m e i.record).mp ⟨i, known, home, rfl⟩
    exact record ▸ tidy.declares m j e environment before home' present

/-- What a module fills disturbs no other. -/
theorem fills {e : EnvironmentId} {names : List String} {slots : List SlotId} (tidy : Tidy ⟨r, s⟩)
    (safe : s.Safe r.Home s') (fills : s.Fills e names slots s') : Tidy ⟨r, s'⟩ where
  housed := (Registry.SameHomes.refl r).housed safe tidy.housed
  reserved := tidy.reserved.fills fills
  declares m i e' after known home present := by
    obtain ⟨before, there, same, _⟩ := fills.environments e' after present
    have declares := tidy.declares m i e' before known home there
    unfold Record.Declares at declares ⊢
    rw [same]
    exact declares

/-- The environment of a module that is linked now was not there. -/
theorem new_of_pending (tidy : l.Tidy) (stocked : l.registry.Stocked) (linkage : l.registry.Linkage)
    (faithful : g.Faithful l.registry) (ran : Links.link l g = .ok l') {m : ModuleId}
    {i : Instance κ} {e : EnvironmentId} (pending : m ∈ l.pending g)
    (known : l'.registry.get? m = some i) (home : i.environment = some e) :
    l.store.environment? e = none := by
  obtain ⟨housed, _, homes⟩ := housed_of_link tidy.housed stocked ran
  obtain ⟨joined, _⟩ := joined_of_link linkage faithful ran
  rcases homes e i.record ⟨m, i, known, home, rfl⟩ with ⟨x, j, old, there, _⟩ | new
  · have linked := Registry.linked_of_home old there
    have kept := joined.kept x (not_mem_pending linked)
    cases housed.apart m x i j e known (kept.trans old) home there
    exact absurd pending (not_mem_pending linked)
  · exact Array.getElem?_eq_none new

/-- Linking makes tidy modules, which have filled nothing. -/
theorem link (tidy : l.Tidy) (stocked : l.registry.Stocked) (linkage : l.registry.Linkage)
    (faithful : g.Faithful l.registry) (ran : Links.link l g = .ok l') :
    l'.Tidy ∧ l.store.Fixes l'.store ∧
      ∀ m, m ∈ l.pending g ∨ l.registry.Waits l.store m → l'.registry.Waits l'.store m := by
  have laid := laid_of_link tidy.reserved tidy.housed stocked ran
  obtain ⟨housed, extends_, _⟩ := housed_of_link tidy.housed stocked ran
  have decision := decision_link tidy.housed stocked linkage faithful
  rw [ran] at decision
  cases decision with | granted _ _ completes => ?_
  have supplies : l.Supplies := fun m i e environment lives =>
    tidy.declares m i e environment lives.known lives.home lives.present
  have supplied := supplies.link tidy.housed stocked linkage faithful ran
  refine ⟨⟨housed, laid.reserved, fun m i e environment known home present =>
    supplied m i e environment ⟨known, home, present⟩⟩,
    laid.fixes extends_.grows, fun m waits i e known home => ?_⟩
  · by_cases pending : m ∈ l.pending g
    · exact laid.untouched (tidy.new_of_pending stocked linkage faithful ran pending known home)
    · rw [completes.modules m pending] at known
      obtain ⟨environment, present, _⟩ := tidy.housed.present m i e known home
      exact (waits.resolve_left pending i e known home).laid tidy.reserved present laid

end Links.Tidy

/-! ## Running modules -/

namespace Machine

variable {r : Registry κ} {w : World κ σ} (interpreter : Interpreter κ σ)

/-- What a module that waits may fill is vacant, and it may fill each of it once. -/
theorem ready_of_waits {m : ModuleId} {i : Instance κ} {e : EnvironmentId}
    {environment : Environment} (stocked : r.Stocked) (tidy : Links.Tidy ⟨r, w.store⟩)
    (waits : r.Waits w.store m) (known : r.get? m = some i) (home : i.environment = some e)
    (present : w.store.environment? e = some environment) :
    environment.kind = i.record.kind ∧ (environment.entitled i.record).Nodup ∧
      environment.reserved.Nodup ∧
      w.store.Vacant e (environment.entitled i.record) environment.reserved := by
  have fits := Record.wellFormed_of_validate (stocked.checked m i known)
  have houses := tidy.housed.sound.houses e i.record environment ⟨m, i, known, home, rfl⟩ present
  exact ⟨houses.kind, (tidy.declares m i e environment known home present).entitled fits,
    tidy.reserved.once e environment present, (waits i e known home).vacant tidy.reserved present _⟩

theorem program_eq {m : ModuleId} {i : Instance κ} {e : EnvironmentId} (known : r.get? m = some i)
    (home : i.environment = some e) :
    program interpreter r m = World.runModule interpreter e i.record := by
  simp only [program, known, home]

/-- A module that is run fills what is its own, and leaves all other modules as they were. -/
theorem filling_program {m : ModuleId} (stocked : r.Stocked) (tidy : Links.Tidy ⟨r, w.store⟩)
    (linked : r.Linked m) (waits : r.Waits w.store m) :
    World.Leads Store.Fixes w (program interpreter r m w).2 ∧
      Links.Tidy ⟨r, (program interpreter r m w).2.store⟩ ∧
      ∀ x, x ≠ m → r.Waits w.store x → r.Waits (program interpreter r m w).2.store x := by
  obtain ⟨i, known, held⟩ := linked
  obtain ⟨e, home⟩ := Option.isSome_iff_exists.mp held
  obtain ⟨environment, present, _⟩ := tidy.housed.present m i e known home
  obtain ⟨kind, distinct, apart, vacant⟩ := ready_of_waits stocked tidy waits known home present
  have filling : World.Filling e (environment.entitled i.record) environment.reserved w
      (program interpreter r m w).2 := by
    rw [program_eq interpreter known home]
    exact World.fitted_runModule interpreter kind distinct apart w ⟨environment.entities, present⟩
      vacant
  have safe : World.Leads (Store.Safe r.Home) w (program interpreter r m w).2 :=
    leads_program stocked tidy.housed (.refl (Store.respected_safe r.Home) w)
  refine ⟨filling.leads, tidy.fills safe.present filling.fills, fun x other waiting j e' known' home' => ?_⟩
  have apart : e' ≠ e := by
    rintro rfl
    exact other (tidy.housed.apart x m j i e' known' known home' home)
  refine (waiting j e' known' home').fills tidy.reserved filling.fills
    (fun same => absurd same apart) fun there k present' mine theirs => ?_
  exact apart (tidy.reserved.own e' e there environment k present' present mine theirs)

/-- Modules that are run once each, after they have waited, fill what is their own. -/
theorem tidy_runSearch {order : List (ModuleId × List ModuleId)} (stop : Option EvalError)
    (stocked : r.Stocked) (tidy : Links.Tidy ⟨r, w.store⟩) (distinct : (order.map (·.1)).Nodup)
    (linked : ∀ entry ∈ order, r.Linked entry.1)
    (waits : ∀ entry ∈ order, r.Waits w.store entry.1) :
    World.Leads Store.Fixes w (runSearch interpreter r stop order w).2.2 ∧
      Links.Tidy ⟨r, (runSearch interpreter r stop order w).2.2.store⟩ ∧
      ∀ x, x ∉ (runSearch interpreter r stop order w).1.map (·.1) → r.Waits w.store x →
        r.Waits (runSearch interpreter r stop order w).2.2.store x := by
  induction order generalizing w with
  | nil => exact ⟨.refl Store.respected_fixes w, tidy, fun _ _ waiting => waiting⟩
  | cons entry rest ih =>
    obtain ⟨fresh, distinct⟩ := List.nodup_cons.mp distinct
    obtain ⟨leads, tidy', others⟩ := filling_program interpreter stocked tidy
      (linked entry List.mem_cons_self) (waits entry List.mem_cons_self)
    unfold runSearch at ih ⊢
    simp only [runInOrder]
    rcases result : program interpreter r entry.1 w with ⟨_ | _ | _, w'⟩ <;>
      rw [result] at leads tidy' others
    · exact ⟨leads, tidy', fun x outside => others x (by simpa using outside)⟩
    · exact ⟨leads, tidy', fun x outside => others x (by simpa using outside)⟩
    · obtain ⟨onward, last, waiting⟩ := ih tidy' distinct
        (fun x member => linked x (List.mem_cons_of_mem _ member)) fun x member =>
          others x.1 (fun same => fresh (List.mem_map.mpr ⟨x, member, same⟩))
            (waits x (List.mem_cons_of_mem _ member))
      refine ⟨leads.trans Store.respected_fixes onward, last, fun x outside waits => ?_⟩
      simp only [List.map_cons, List.mem_cons, not_or] at outside
      exact waiting x outside.2 (others x outside.1 waits)

end Machine

/-! ## Histories -/

namespace Site

/-- A call comes to an end. Whatever it does to the world while it goes on, an evaluation
may never return. -/
def Answers (setup : Setup κ σ ℓ) (site : Site κ σ ℓ) : Call κ σ ℓ → Prop
  | .evaluate n => (site.linked[n]?).all (fun linked =>
      (site.engine.evaluate setup.interpreter linked site.world).1.isSome) = true
  | _ => True

/-- A history that can happen: no call is made before the one before it has come to its end. -/
def Returns (setup : Setup κ σ ℓ) : Site κ σ ℓ → List (Call κ σ ℓ) → Prop
  | _, [] => True
  | site, call :: rest =>
    (rest ≠ [] → site.Answers setup call) ∧ Returns setup (site.make setup call) rest

/-- What holds at every moment of a history. -/
structure Durable (site : Site κ σ ℓ) : Prop where
  tidy : Links.Tidy ⟨site.registry, site.world.store⟩
  ordered : site.world.Ordered Store.Fixes
  finished : ∀ m i e, site.registry.get? m = some i → i.progress = .completed →
    i.environment = some e → site.world.Finished e i.record

/-- What holds between two calls beside that. -/
def Waiting (site : Site κ σ ℓ) : Prop :=
  ∀ m, site.registry.progressOf? m = some .notStarted → site.registry.Waits site.world.store m

variable {setup : Setup κ σ ℓ} {site : Site κ σ ℓ}

/-- An evaluation that comes to an end has an outcome. -/
theorem evaluate_answers (setup : Setup κ σ ℓ) (site : Site κ σ ℓ) (n : Nat) :
    site.make setup (.evaluate n) = site ∨ ∃ l outcome machine, l ∈ site.linked ∧
      Machine.evaluate setup.interpreter (site.engine.traversals + 1) l.graph.entry
        ⟨site.registry, site.world⟩ = (outcome, machine) ∧
      (site.Answers setup (.evaluate n) → outcome ≠ none) ∧
      site.make setup (.evaluate n) = match outcome with
        | some _ => { site with
            engine := ⟨machine.registry, site.engine.traversals + 1⟩, world := machine.world }
        | none => { site with world := machine.world } := by
  cases named : site.linked[n]? with
  | none => exact .inl (by simp only [Site.make, named])
  | some l =>
    rcases ran : Machine.evaluate setup.interpreter (site.engine.traversals + 1) l.graph.entry
      ⟨site.registry, site.world⟩ with ⟨outcome, machine⟩
    refine .inr ⟨l, outcome, machine, List.mem_of_getElem? named, ran, fun answers never => ?_,
      Orderly.make_evaluate named ran⟩
    unfold registry at ran
    simp [Answers, named, Engine.evaluate, ran, never] at answers

theorem durable_start (setup : Setup κ σ ℓ) (memo : σ) (source : ℓ) :
    (start memo source : Site κ σ ℓ).Durable ∧ (start memo source : Site κ σ ℓ).Waiting := by
  have absent : ∀ m, (start memo source : Site κ σ ℓ).registry.get? m = .none := fun _ => rfl
  have orderly : Orderly setup (start memo source) := .start memo source
  refine ⟨⟨⟨orderly.housed, .empty, fun m i e environment known => ?_⟩, ⟨?_, ?_⟩,
    fun m i e known => ?_⟩, fun m _ i e known => ?_⟩
  · rw [absent] at known
    cases known
  · simp [start, World.start]
  · simp [start, World.start]
  · rw [absent] at known
    cases known
  · rw [absent] at known
    cases known

namespace Durable

variable {w : World κ σ}

/-- What is completed between two calls has gone through all of its evaluation. -/
theorem accounted (durable : site.Durable) :
    (⟨site.registry, site.world⟩ : Machine κ σ).Accounted where
  ordered := ⟨durable.ordered.latest, durable.ordered.steps.imp fun fixes => fixes.grows⟩
  finished := durable.finished

/-- A change of the world alone. -/
theorem world (durable : site.Durable) (leads : World.Leads Store.Fixes site.world w)
    (tidy : Links.Tidy ⟨site.registry, w.store⟩) : Durable { site with world := w } where
  tidy := tidy
  ordered := leads.ordered durable.ordered
  finished m i e known completed home := World.lasts_finished e i.record site.world w leads.since
    (durable.finished m i e known completed home)

/-- Code acts through operations, which fill nothing. -/
theorem act (durable : site.Durable) (program : Program κ σ Unit) :
    (site.make setup (.act program)).Durable ∧
      (site.Waiting → (site.make setup (.act program)).Waiting) := by
  have fills : site.world.store.Fills ⟨0⟩ [] [] (site.make setup (.act program)).world.store :=
    (World.through_run (Store.respected_fills ⟨0⟩)
      (World.through_ofDepth (Store.respected_fills ⟨0⟩) setup.interpreter.embedder
        setup.interpreter.depth) program site.world).present
  have leads : World.Leads Store.Fixes site.world (site.make setup (.act program)).world :=
    World.through_run Store.respected_fixes
      (World.through_ofDepth Store.respected_fixes setup.interpreter.embedder
        setup.interpreter.depth) program site.world
  refine ⟨durable.world leads (durable.tidy.fills (Orderly.leads_act setup site program).present fills),
    fun waiting m waits i e known home => ?_⟩
  exact (waiting m waits i e known home).fills durable.tidy.reserved fills (fun _ => rfl) (by simp)

/-- New modules are not linked. -/
theorem build (orderly : Orderly setup site) (durable : site.Durable) (entry : String) :
    (site.make setup (.build entry)).Durable ∧
      (site.Waiting → (site.make setup (.build entry)).Waiting) := by
  obtain ⟨grows, _, _⟩ := Orderly.build_yields setup site entry orderly.stocked
  have homes := grows.sameHomes
  have before : ∀ m i e, (site.make setup (.build entry)).registry.get? m = some i →
      i.environment = some e → ∃ j, site.registry.get? m = some j ∧ j.environment = some e ∧
        j.record = i.record ∧ j.progress = i.progress := by
    intro m i e known home
    obtain ⟨j, held, home', record⟩ := (homes.homes m e i.record).mp ⟨i, known, home, rfl⟩
    have progress := grows.progressOf?_of_some (Registry.progressOf?_eq_some_iff.mpr ⟨j, held, rfl⟩)
    obtain ⟨i', known', same⟩ := Registry.progressOf?_eq_some_iff.mp progress
    cases known.symm.trans known'
    exact ⟨j, held, home', record, same.symm⟩
  refine ⟨⟨durable.tidy.sameHomes homes, durable.ordered, fun m i e known completed home => ?_⟩,
    fun waiting m waits i e known home => ?_⟩
  · obtain ⟨j, held, home', record, progress⟩ := before m i e known home
    exact record ▸ durable.finished m j e held (progress.trans completed) home'
  · obtain ⟨j, held, home', _, progress⟩ := before m i e known home
    obtain ⟨i', known', idle⟩ := Registry.progressOf?_eq_some_iff.mp waits
    cases known.symm.trans known'
    exact waiting m (Registry.progressOf?_eq_some_iff.mpr ⟨j, held, progress.trans idle⟩) j e held home'

theorem link (orderly : Orderly setup site) (durable : site.Durable) (n : Nat) :
    (site.make setup (.link n)).Durable ∧ (site.Waiting → (site.make setup (.link n)).Waiting) := by
  rcases Orderly.link_cases setup site n with same | ⟨g, links, member, ran, made⟩
  · rw [same]
    exact ⟨durable, fun waiting => waiting⟩
  rw [made]
  have faithful := orderly.graphs g member
  obtain ⟨joined, _⟩ := Links.joined_of_link orderly.linkage faithful ran
  obtain ⟨tidy, fixes, waits⟩ := durable.tidy.link orderly.stocked orderly.linkage faithful ran
  have leads : World.Leads Store.Fixes site.world (site.world.become links.store) :=
    .become Store.respected_fixes fixes
  refine ⟨⟨tidy, leads.ordered durable.ordered, fun m i e known completed home => ?_⟩,
    fun waiting m idle => waits m (.inr (waiting m ?_))⟩
  · have held : site.registry.progressOf? m = some .completed := by
      rw [← joined.reassigned.progressOf?]
      exact Registry.progressOf?_eq_some_iff.mpr ⟨i, known, completed⟩
    obtain ⟨j, old, linked⟩ := orderly.settled.linked held (by simp)
    have kept := joined.kept m (Links.not_mem_pending ⟨j, old, linked⟩)
    exact World.lasts_finished e i.record site.world _ leads.since
      (durable.finished m i e (kept.symm.trans known) completed home)
  · rwa [← joined.reassigned.progressOf?]

/-- An evaluation runs modules that wait, each once. -/
theorem evaluated (orderly : Orderly setup site) (durable : site.Durable) (waiting : site.Waiting)
    {l : LinkedGraph} (member : l ∈ site.linked) {traversal : Nat}
    {outcome : Option (Except EvalError Unit)} {machine : Machine κ σ}
    (ran : Machine.evaluate setup.interpreter traversal l.graph.entry ⟨site.registry, site.world⟩ =
      (outcome, machine)) :
    World.Leads Store.Fixes site.world machine.world ∧
      Links.Tidy ⟨site.registry, machine.world.store⟩ ∧
      (∀ result, outcome = some result → ∀ m, machine.registry.progressOf? m = some .notStarted →
        site.registry.Waits machine.world.store m) := by
  obtain ⟨order, stop, after, search, followed⟩ := orderly.follows member traversal
  rw [ran] at followed
  obtain ⟨distinct, fresh⟩ := search.fresh
  have linked := search.stays (fun m target held => (orderly.linkage.closed m held).2 target)
    (by simpa using orderly.linked l member)
  have world : machine.world = _ := followed.world
  obtain ⟨leads, tidy, waits⟩ := Machine.tidy_runSearch setup.interpreter stop
    orderly.stocked durable.tidy distinct linked fun entry held => waiting entry.1 (fresh entry held).2.2
  rw [← world] at leads tidy waits
  refine ⟨leads, tidy, fun result ends m idle => waits m (fun ran => ?_) (waiting m ?_)⟩
  · obtain ⟨entry, held, rfl⟩ := List.mem_map.mp ran
    obtain ⟨progress, begun, spent⟩ := followed.begun entry held
    rw [idle] at begun
    exact spent (Option.some.inj begun).symm
  · have advanced := (orderly.evaluated member ran).advanced result ends
    by_contra spent
    exact spent ((advanced.kept m spent).symm.trans idle)

theorem evaluate (orderly : Orderly setup site) (durable : site.Durable) (waiting : site.Waiting)
    (n : Nat) : (site.make setup (.evaluate n)).Durable ∧
      (site.Answers setup (.evaluate n) → (site.make setup (.evaluate n)).Waiting) := by
  rcases evaluate_answers setup site n with same | ⟨l, outcome, machine, member, ran, ends, made⟩
  · rw [same]
    exact ⟨durable, fun _ => waiting⟩
  obtain ⟨leads, tidy, waits⟩ := durable.evaluated orderly waiting member ran
  rw [made]
  cases outcome with
  | none => exact ⟨durable.world leads tidy, fun answers => absurd rfl (ends answers)⟩
  | some result =>
    have homes := ((orderly.evaluated member ran).advanced result rfl).same.sameHomes
    have accounted : Machine.Accounted (Machine.evaluate setup.interpreter
        (site.engine.traversals + 1) l.graph.entry ⟨site.registry, site.world⟩).2 := by
      rw [Machine.evaluate_apply]
      exact Machine.Accounts.visit _ _ _ _ durable.accounted
    rw [ran] at accounted
    refine ⟨⟨tidy.sameHomes homes, leads.ordered durable.ordered, accounted.finished⟩,
      fun _ m idle i e known home => ?_⟩
    obtain ⟨j, held, home', _⟩ := (homes.homes m e i.record).mp ⟨i, known, home, rfl⟩
    exact waits result rfl m idle j e held home'

/-- Each call keeps what holds at every moment, and if it comes to an end also what holds
between two calls. -/
theorem make (orderly : Orderly setup site) (durable : site.Durable) (waiting : site.Waiting)
    (call : Call κ σ ℓ) : (site.make setup call).Durable ∧
      (site.Answers setup call → (site.make setup call).Waiting) := by
  cases call with
  | build entry =>
    obtain ⟨durable, kept⟩ := durable.build orderly entry
    exact ⟨durable, fun _ => kept waiting⟩
  | link n =>
    obtain ⟨durable, kept⟩ := durable.link orderly n
    exact ⟨durable, fun _ => kept waiting⟩
  | evaluate n => exact durable.evaluate orderly waiting n
  | act program =>
    obtain ⟨durable, kept⟩ := durable.act program
    exact ⟨durable, fun _ => kept waiting⟩
  | restock source => exact ⟨{ durable with }, fun _ => waiting⟩

/-- Every history that can happen keeps modules to what is theirs. -/
theorem run (orderly : Orderly setup site) (durable : site.Durable) (waiting : site.Waiting)
    {calls : List (Call κ σ ℓ)} (returns : Returns setup site calls) :
    (site.run setup calls).Durable := by
  induction calls generalizing site with
  | nil => exact durable
  | cons call rest ih =>
    obtain ⟨ended, later⟩ := returns
    obtain ⟨durable', waiting'⟩ := durable.make orderly waiting call
    cases rest with
    | nil => exact durable'
    | cons next rest => exact ih (orderly.make call) durable' (waiting' (ended (by simp))) later

theorem of_returns {memo : σ} {source : ℓ} {calls : List (Call κ σ ℓ)}
    (returns : Returns setup (start memo source) calls) :
    ((start memo source).run setup calls).Durable := by
  obtain ⟨durable, waiting⟩ := durable_start setup memo source
  exact durable.run (.start memo source) waiting returns

end Durable
end Site
end MixedModules
