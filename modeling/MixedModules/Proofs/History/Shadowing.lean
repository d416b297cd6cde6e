import MixedModules.Proofs.History.Coherence
import MixedModules.Proofs.History.Namespaces
import MixedModules.Proofs.Link.Layout

/-! Whose a name of a script module is.

A name is read among the own bindings of its module first, and assigned only if it is not
imported. The check of a record keeps own bindings and imports apart, but not the name of a
declared function from an import: such a name is read as the function, cannot be assigned, and
is the import for whoever reads imports. -/
namespace MixedModules

variable {κ σ ℓ : Type}

/-- A name under which a module has an import. -/
def Record.Imports (r : Record κ) (name : String) : Prop :=
  ∃ decl ∈ r.imports, decl.localName = name

/-- A name under which a module declares a function. -/
def Record.DeclaresFunction (r : Record κ) (name : String) : Prop :=
  ∃ decl ∈ r.exports, decl.name = name ∧ ∃ code, decl.source = .declaration code

theorem Record.DeclaresFunction.owns {record : Record κ} {name : String}
    (declares : record.DeclaresFunction name) : record.Owns name := by
  obtain ⟨decl, declared, named, code, source⟩ := declares
  refine ⟨decl, declared, ?_⟩
  unfold ExportDecl.Binds
  rw [source]
  exact named

/-- Of the own bindings of a script module only those of declared functions may have the names
of imports. -/
theorem Record.WellFormed.declares_of_shadowed {record : Record κ} {name : String}
    (fits : record.WellFormed) (owns : record.Owns name) (imports : record.Imports name) :
    record.DeclaresFunction name := by
  obtain ⟨decl, declared, binds⟩ := owns
  have script := fits.script_of_binds declared binds
  cases shape : record.body with
  | binary body => simp [Record.kind, shape] at script
  | script code =>
    have allowed := (fits.script code shape decl declared).2
    unfold ExportDecl.Binds at binds
    rw [script] at binds
    cases source : decl.source with
    | own own =>
      rw [source] at allowed binds
      obtain ⟨imported, member, named⟩ := imports
      exact absurd (named.trans binds.symm) (allowed imported member)
    | declaration code =>
      rw [source] at binds
      exact ⟨decl, declared, binds, code, source⟩
    | observed | indirect =>
      rw [source] at binds
      exact binds.elim

/-- The imports that are bound are those that the record declares. -/
theorem Record.Declares.get?_iff {record : Record κ} {environment : Environment}
    (declares : record.Declares environment) (fits : record.WellFormed) (name : String) :
    (∃ b, environment.imports.get? name = some b) ↔ record.Imports name := by
  constructor
  · rintro ⟨b, held⟩
    have listed : b.localName ∈ record.imports.map (·.localName) :=
      declares.names.1 ▸ List.mem_map_of_mem (Store.mem_values_of_get? held)
    obtain ⟨decl, declared, named⟩ := List.mem_map.mp listed
    exact ⟨decl, declared, named.trans (declares.localName_of_get? held)⟩
  · rintro ⟨decl, declared, rfl⟩
    obtain ⟨b, member, bound⟩ := declares.bound declared
    exact ⟨b, bound.localName ▸ declares.get? fits member⟩

namespace Store

variable {interpreter : Interpreter κ σ} {homes : EnvironmentId → Record κ → Prop}
  {past events : List (Store κ)} {s s' : Store κ} {e : EnvironmentId} {record : Record κ}
  {environment : Environment} {i : SlotId} {name : String} {b : ImportBinding}

/-! ## Reading and assigning a name -/

section Names

variable (present : s.environment? e = some environment)

include present

theorem readName_own (own : environment.locals.get? name = some i) :
    s.readName e name = s.readSlot i := by
  unfold readName
  rw [environment_eq_ok.mpr present]
  simp only [bind, Except.bind, own]

theorem readName_foreign (foreign : environment.locals.get? name = none) :
    s.readName e name = s.readImport e name := by
  unfold readName
  rw [environment_eq_ok.mpr present]
  simp only [bind, Except.bind, foreign]

theorem readImport_unbound (absent : environment.imports.get? name = none) :
    s.readImport e name = .error (environment.unbound name) := by
  unfold readImport
  rw [environment_eq_ok.mpr present]
  simp only [bind, Except.bind, absent]

theorem assign_imported (imported : environment.imports.get? name = some b) (value : Value) :
    assign e name value s = .error (.type (.assignToImport name environment.identity)) := by
  unfold assign
  rw [environment_eq_ok.mpr present]
  simp only [bind, Except.bind, Scope.contains, imported]
  rfl

theorem assign_own (absent : environment.imports.get? name = none)
    (own : environment.locals.get? name = some i) (value : Value) :
    assign e name value s = .ok ((), s.modifySlot i fun slot => slot.setLive value) := by
  unfold assign
  rw [environment_eq_ok.mpr present]
  simp [bind, Except.bind, Scope.contains, absent, own]

theorem assign_unbound (absent : environment.imports.get? name = none)
    (foreign : environment.locals.get? name = none) (value : Value) :
    assign e name value s = .error (environment.unbound name) := by
  unfold assign
  rw [environment_eq_ok.mpr present]
  simp [bind, Except.bind, Scope.contains, absent, foreign]

end Names

/-! ## Own bindings at every moment -/

/-- A module never has an own binding that its record does not make. -/
theorem Lineage.owned (lineage : Lineage interpreter homes events)
    (only : ∀ other, homes e other → other = record) :
    ∀ s ∈ events, ∀ environment, s.environment? e = some environment → ∀ name i,
      environment.locals.get? name = some i → record.Owns name := by
  refine lineage.invariant (fun environment known => by cases known) fun past s s' _ owned moves
    after present name i own => ?_
  cases before : s.environment? e with
  | some environment =>
    obtain ⟨entities, kept⟩ := moves.grows.environments e environment before
    cases present.symm.trans kept
    exact owned environment before name i own
  | none =>
    rcases moves.fills_or_laid with ⟨e', names, slots, fills⟩ | ⟨_, adopts⟩
    · obtain ⟨there, before', _⟩ := fills.environments e after present
      cases before.symm.trans before'
    · obtain ⟨other, home, _, opens⟩ := adopts e after present before
      exact only other home ▸ opens.owned name i own

/-- A binding that is never assigned has no last assignment. -/
theorem Assigned.eq_none {last : Option Value} (assigned : Assigned e name events last)
    (never : ∀ s ∈ events, ∀ value s', ¬ Assigns e name value s s') : last = none := by
  induction assigned with
  | never => rfl
  | now assigns => exact absurd assigns (never _ (by simp) _ _)
  | before other before ih => exact ih fun s told => never s (List.mem_cons_of_mem _ told)

/-- It gives what it began with at every moment. -/
theorem Lineage.unassigned (lineage : Lineage interpreter homes (s :: past))
    (kinds : ∀ s' ∈ s :: past, ∀ e record environment, homes e record →
      s'.environment? e = some environment → environment.kind = record.kind)
    (only : ∀ other, homes e other → other = record)
    (present : s.environment? e = some environment) (own : environment.locals.get? name = some i)
    (never : ∀ t ∈ s :: past, ∀ value t', ¬ Assigns e name value t t') :
    ∃ first, s.Unassigned e record environment.identity name first ∧
      ∀ t ∈ s :: past, (∃ there, t.environment? e = some there) → t.readSlot i = first := by
  obtain ⟨first, unassigned, gives⟩ := lineage.outcome kinds only present own
  refine ⟨first, unassigned, fun t told there => ?_⟩
  obtain ⟨newer, older, parts⟩ := List.append_of_mem told
  have onward : t :: older <:+ s :: past := parts ▸ List.suffix_append newer _
  obtain ⟨last, assigned, read⟩ := gives t older onward there
  obtain rfl := assigned.eq_none fun t told => never t (onward.subset told)
  exact read

end Store

namespace Site

/-- Whose the names of a linked script module are, at every moment since it was linked. -/
structure Scoped (site : Site κ σ ℓ) (i : Instance κ) (e : EnvironmentId) : Prop where
  /-- The own bindings and the imports are those that the record makes. -/
  bound : ∀ s ∈ site.world.past.events, ∀ environment, s.environment? e = some environment →
    ∀ name, ((∃ slot, environment.locals.get? name = some slot) ↔ i.record.Owns name) ∧
      ((∃ b, environment.imports.get? name = some b) ↔ i.record.Imports name)
  /-- A name that is both is that of a declared function. -/
  both : ∀ name, i.record.Owns name ∧ i.record.Imports name ↔
    i.record.DeclaresFunction name ∧ i.record.Imports name
  own : ∀ name, i.record.Owns name → ¬ i.record.Imports name → ∃ slot,
    ∀ s ∈ site.world.past.events, ∀ environment, s.environment? e = some environment →
      s.readName e name = s.readSlot slot ∧
      s.readImport e name = .error (environment.unbound name) ∧
      ∀ value, Store.assign e name value s = .ok ((), s.modifySlot slot fun x => x.setLive value)
  imported : ∀ name, ¬ i.record.Owns name → i.record.Imports name → ∃ slot,
    ∀ s ∈ site.world.past.events, ∀ environment, s.environment? e = some environment →
      s.readName e name = s.readSlot slot ∧ s.readImport e name = s.readSlot slot ∧
      ∀ value, Store.assign e name value s =
        .error (.type (.assignToImport name environment.identity))
  unbound : ∀ name, ¬ i.record.Owns name → ¬ i.record.Imports name →
    ∀ s ∈ site.world.past.events, ∀ environment, s.environment? e = some environment →
      s.readName e name = .error (environment.unbound name) ∧
      s.readImport e name = .error (environment.unbound name) ∧
      ∀ value, Store.assign e name value s = .error (environment.unbound name)
  /-- A function under the name of an import is read for ever, is never assigned, and does not
  stand in the way of the import. -/
  shadowed : ∀ name, i.record.DeclaresFunction name → i.record.Imports name → ∃ f code slot,
    site.world.store.function f = .ok ⟨name, .script code e⟩ ∧
    ∀ s ∈ site.world.past.events, ∀ environment, s.environment? e = some environment →
      s.readName e name = .ok (.function f) ∧ s.readImport e name = s.readSlot slot ∧
      ∀ value, Store.assign e name value s =
        .error (.type (.assignToImport name environment.identity))

variable {setup : Setup κ σ ℓ} {site : Site κ σ ℓ} {m : ModuleId} {i : Instance κ} {e : EnvironmentId}

/-- Where the bound names are known, any other name has no binding. -/
private theorem unbound_of_iff {α : Type} {scope : Scope α} {name : String} {p : Prop}
    (binds : (∃ x, scope.get? name = some x) ↔ p) (foreign : ¬ p) : scope.get? name = none :=
  Option.eq_none_iff_forall_ne_some.mpr fun x held => foreign (binds.mp ⟨x, held⟩)

/-- A linked script module has the own bindings and the imports that its record makes, and it
has had them since it was linked. -/
private theorem Orderly.scopes (orderly : Orderly setup site)
    (descends : site.world.Descends setup.interpreter site.registry.Home)
    (wired : Links.Wired ⟨site.registry, site.world.store⟩)
    (supplies : Links.Supplies ⟨site.registry, site.world.store⟩)
    (known : site.registry.get? m = some i) (script : i.kind = .script)
    (home : i.environment = some e) :
    ∃ environment, site.world.store.environment? e = some environment ∧
      (∀ name, (∃ slot, environment.locals.get? name = some slot) ↔ i.record.Owns name) ∧
      (∀ name, (∃ b, environment.imports.get? name = some b) ↔ i.record.Imports name) ∧
      ∀ s ∈ site.world.past.events, ∀ there, s.environment? e = some there →
        there.locals = environment.locals ∧ there.imports = environment.imports := by
  have fits := Record.wellFormed_of_validate (orderly.stocked.checked m i known)
  obtain ⟨environment, present, _⟩ := orderly.housed.present m i e known home
  have houses := orderly.housed.sound.houses e i.record environment ⟨m, i, known, home, rfl⟩ present
  have stands := wired.stands m i e environment ⟨known, home, present⟩ script
  have declares := supplies m i e environment ⟨known, home, present⟩
  refine ⟨environment, present, fun name => ⟨fun ⟨slot, own⟩ => ?_, ?_⟩, declares.get?_iff fits,
    fun s told there held => ?_⟩
  · exact descends.lineage.owned (fun _ there => orderly.housed.unique known home there) _
      orderly.present environment present name slot own
  · rintro ⟨decl, declared, binds⟩
    obtain ⟨slot, held⟩ := houses.given decl declared (ExportDecl.direct_of_binds binds)
    have found := stands decl declared slot held
    rw [fits.script_of_binds declared binds] at binds
    exact ⟨slot, ExportDecl.binding_of_binds binds ▸ found⟩
  · obtain ⟨entities, kept⟩ := (orderly.past s told).2.environments e there held
    cases present.symm.trans kept
    exact ⟨rfl, rfl⟩

/-- In every history a name of a linked script module is that of an own binding or that of an
import, to read and to assign, unless a function is declared under the name of an import. -/
theorem names_scoped (setup : Setup κ σ ℓ) (memo : σ) (source : ℓ) (calls : List (Call κ σ ℓ))
    {site : Site κ σ ℓ} (history : site = (start memo source).run setup calls) {m : ModuleId}
    {i : Instance κ} {e : EnvironmentId} (known : site.registry.get? m = some i)
    (script : i.kind = .script) (home : i.environment = some e) : Scoped site i e := by
  have orderly : Orderly setup site := history ▸ Orderly.of_run setup memo source calls
  have descends : site.world.Descends setup.interpreter site.registry.Home :=
    history ▸ descends_of_run setup memo source calls
  have fits := Record.wellFormed_of_validate (orderly.stocked.checked m i known)
  obtain ⟨environment, present, owns, imports, same⟩ := orderly.scopes descends
    (history ▸ wired_of_run setup memo source calls)
    (history ▸ supplies_of_run setup memo source calls) known script home
  refine ⟨fun s told there held name => ?_,
    fun name => ⟨fun ⟨owned, also⟩ => ?_, fun ⟨makes, also⟩ => ?_⟩,
    fun name owned foreign => ?_, fun name foreign also => ?_, fun name foreign foreign' => ?_,
    fun name makes also => ?_⟩
  · obtain ⟨locals, bound⟩ := same s told there held
    rw [locals, bound]
    exact ⟨owns name, imports name⟩
  · exact ⟨fits.declares_of_shadowed owned also, also⟩
  · exact ⟨makes.owns, also⟩
  · obtain ⟨slot, own⟩ := (owns name).mpr owned
    have absent : environment.imports.get? name = none := unbound_of_iff (imports name) foreign
    refine ⟨slot, fun s told there held => ?_⟩
    obtain ⟨locals, bound⟩ := same s told there held
    rw [← locals] at own
    rw [← bound] at absent
    exact ⟨Store.readName_own held own, Store.readImport_unbound held absent,
      Store.assign_own held absent own⟩
  · obtain ⟨b, found⟩ := (imports name).mpr also
    have absent : environment.locals.get? name = none := unbound_of_iff (owns name) foreign
    refine ⟨b.readSlot, fun s told there held => ?_⟩
    obtain ⟨locals, bound⟩ := same s told there held
    rw [← locals] at absent
    rw [← bound] at found
    have read := Store.readImport_eq held found
    exact ⟨(Store.readName_foreign held absent).trans read, read, Store.assign_imported held found⟩
  · intro s told there held
    obtain ⟨locals, bound⟩ := same s told there held
    have absent : there.locals.get? name = none := locals ▸ unbound_of_iff (owns name) foreign
    have absent' : there.imports.get? name = none := bound ▸ unbound_of_iff (imports name) foreign'
    have read := Store.readImport_unbound held absent'
    exact ⟨(Store.readName_foreign held absent).trans read, read,
      Store.assign_unbound held absent' absent⟩
  · obtain ⟨slot, own⟩ := (owns name).mpr makes.owns
    obtain ⟨b, found⟩ := (imports name).mpr also
    have refused : ∀ t ∈ site.world.past.events, ∀ value t', ¬ Store.Assigns e name value t t' := by
      intro t told value t' assigns
      obtain ⟨before, _, held, _⟩ := Store.assign_eq_ok assigns
      have found := (same t told before held).2 ▸ found
      rw [Store.Assigns, Store.assign_imported held found] at assigns
      cases assigns
    obtain ⟨past, events, lineage⟩ := descends
    rw [events] at refused ⊢
    obtain ⟨first, unassigned, gives⟩ := lineage.unassigned
      (fun s told e record there home held => orderly.kinds (events ▸ told) home held)
      (fun _ there => orderly.housed.unique known home there) present own refused
    cases unassigned with
    | bare none =>
      obtain ⟨decl, declared, named, code, source⟩ := makes
      exact absurd source (none decl declared named code)
    | @hoisted _ code f _ _ _ function =>
      refine ⟨f, code, b.readSlot, function, fun s told there held => ?_⟩
      obtain ⟨locals, bound⟩ := same s (events ▸ told) there held
      exact ⟨(Store.readName_own held (locals ▸ own)).trans (gives s told ⟨there, held⟩),
        Store.readImport_eq held (bound ▸ found), Store.assign_imported held (bound ▸ found)⟩

end Site

namespace Sample

/-- A script module that declares a function. -/
def provider : Record Unit where
  requested := []
  imports := []
  exports := [⟨"f", .value, .none, .declaration ()⟩]
  stars := []
  body := .script none

/-- A script module that imports the function and declares one of the same name. -/
def shadower : Record Unit where
  requested := ["provider"]
  imports := [⟨"provider", "f", "f", .value, .none⟩]
  exports := [⟨"f", .value, .none, .declaration ()⟩]
  stars := []
  body := .script none

/-- Two modules, of which one asks for the other. -/
def shadowing : Setup Unit Unit Unit where
  resolver specifier _ := .ok specifier
  loader identity source :=
    (.record (if identity = "shadower" then shadower else provider), source)
  limits := ⟨1, 10⟩
  interpreter := ⟨⟨fun _ _ => .done (.ok ()), fun _ _ _ => .done (.ok .undefined),
    fun _ _ _ => .done (.ok [])⟩, 1⟩

/-- Both modules are linked. -/
def shadowed : Site Unit Unit Unit := (Site.start () ()).run shadowing [.build "shadower", .link 0]

/-- The module that declares a function of its own when it is linked. -/
def shaded : Instance Unit :=
  ⟨"shadower", shadower, some [("provider", ⟨1⟩)], some ⟨0⟩, some ⟨1⟩, .notStarted⟩

theorem instances_shadowed : shadowed.registry.get? ⟨0⟩ = some shaded := by
  decide +kernel

end Sample

/-- The module reads its own function under the name, and nobody can assign it. -/
theorem Site.shadower_scoped : ∃ f, ∀ environment,
    Sample.shadowed.world.store.environment? ⟨0⟩ = some environment →
      Sample.shadowed.world.store.readName ⟨0⟩ "f" = .ok (.function f) ∧
      ∀ value, Store.assign ⟨0⟩ "f" value Sample.shadowed.world.store =
        .error (.type (.assignToImport "f" environment.identity)) := by
  have laws := Site.names_scoped Sample.shadowing () () [.build "shadower", .link 0] rfl
    Sample.instances_shadowed rfl rfl
  have orderly := Site.Orderly.of_run Sample.shadowing () () [.build "shadower", .link 0]
  obtain ⟨f, _, _, _, holds⟩ := laws.shadowed "f"
    ⟨_, List.mem_cons_self, rfl, (), rfl⟩ ⟨_, List.mem_cons_self, rfl⟩
  refine ⟨f, fun environment present => ?_⟩
  obtain ⟨read, _, refused⟩ := holds _ orderly.present environment present
  exact ⟨read, refused⟩

/-- A record that is checked and linked may have an own binding and an import of one name: what
is read under it is not the import, and still it cannot be assigned. -/
theorem Site.not_names_apart : ∃ i environment,
    Sample.shadowed.registry.get? ⟨0⟩ = some i ∧ i.record.validate = .ok () ∧ i.kind = .script ∧
    i.environment = some ⟨0⟩ ∧
    Sample.shadowed.world.store.environment? ⟨0⟩ = some environment ∧
    (∃ slot, environment.locals.get? "f" = some slot) ∧
    (∃ b, environment.imports.get? "f" = some b) ∧
    (∀ value, Store.assign ⟨0⟩ "f" value Sample.shadowed.world.store =
      .error (.type (.assignToImport "f" environment.identity))) ∧
    Sample.shadowed.world.store.readName ⟨0⟩ "f" = .ok (.function ⟨0⟩) ∧
    Sample.shadowed.world.store.readImport ⟨0⟩ "f" = .ok (.function ⟨1⟩) := by
  have linked : (Sample.shadowed.world.store.environment? ⟨0⟩).map (fun environment =>
      (environment.locals.contains "f", environment.imports.contains "f")) = some (true, true) := by
    decide +kernel
  obtain ⟨environment, present, both⟩ := Option.map_eq_some_iff.mp linked
  obtain ⟨own, imported⟩ := Prod.mk.inj both
  obtain ⟨b, found⟩ := Option.isSome_iff_exists.mp imported
  exact ⟨Sample.shaded, environment, Sample.instances_shadowed, rfl, rfl, rfl, present,
    Option.isSome_iff_exists.mp own, ⟨b, found⟩, Store.assign_imported present found,
    by decide +kernel, by decide +kernel⟩

end MixedModules
