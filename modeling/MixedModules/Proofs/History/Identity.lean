import MixedModules.Proofs.History.Snapshot
import MixedModules.Proofs.Link.Wiring

/-! A handle is the same object wherever it comes.

A binary module exports entities of its own. They come to importers through re-exports,
through binary modules that export what they import, and through script modules that
assign what they have observed to bindings of their own, in any order and any number of
times. What arrives is always the handle of the entity, never that of anything made on the
way: slots hold what was put there, and a handle that has a type is observed as it is. -/
namespace MixedModules
open Relation

variable {κ σ ℓ : Type}

/-- Code assigns a binding of the environment `e`. -/
def Store.Assigns (e : EnvironmentId) (name : String) (value : Value) (s s' : Store κ) : Prop :=
  assign e name value s = .ok ((), s')

/-- What a module asks another one for under a local name. -/
def Instance.Asks (i : Instance κ) (name : String) (q : Registry.Question) : Prop :=
  ∃ decl ∈ i.record.imports, decl.localName = name ∧ i.dependency? decl.specifier = some q.1 ∧
    decl.name = q.2

/-- Where a value is on its way: an export of a module, or an import. -/
inductive Waypoint where
  | exported (q : Registry.Question)
  | imported (m : ModuleId) (name : String)

/-- An export that names an entity is not a re-export. -/
theorem ExportDecl.not_indirect (decl : ExportDecl κ) {name : String}
    (source : decl.source = .own name ∨ decl.source = .observed name) (specifier inner : String) :
    decl.source ≠ .indirect specifier inner := by
  rcases source with source | source <;> simp [source]

namespace Site

/-! ## How a handle comes to an importer -/

/-- The ways on which a handle comes to a waypoint, by the time of a store that there has been. -/
inductive Reaches (site : Site κ σ ℓ) (h : Value) : Waypoint → Store κ → Prop where
  /-- A binary module that has published its exports exports an entity of its own. -/
  | own {m : ModuleId} {i : Instance κ} {e : EnvironmentId} {decl : ExportDecl κ} {name : String}
      {since : List (Store κ)} {s : Store κ} (known : site.registry.get? m = some i)
      (home : i.environment = some e) (binary : i.kind = .binary)
      (published : site.world.Took (Store.Publishes e i.record) since)
      (declared : decl ∈ i.record.exports) (source : decl.source = .own name)
      (entity : site.world.store.readEntity e name = .ok h) :
      Reaches site h (.exported (m, decl.name)) s
  /-- A script module gives on what another one exports, by a re-export or by a star. -/
  | onward {q q' : Registry.Question} {s : Store κ} (edge : site.registry.LeadsTo q q')
      (there : Reaches site h (.exported q') s) : Reaches site h (.exported q) s
  /-- A binary module that has published its exports exports what it imports. -/
  | observed {m : ModuleId} {i : Instance κ} {e : EnvironmentId} {decl : ExportDecl κ}
      {name : String} {since : List (Store κ)} {s t : Store κ}
      (known : site.registry.get? m = some i) (home : i.environment = some e)
      (binary : i.kind = .binary)
      (published : site.world.Took (Store.Publishes e i.record) since)
      (declared : decl ∈ i.record.exports) (source : decl.source = .observed name)
      (told : t ∈ site.world.past.events) (there : Reaches site h (.imported m name) t) :
      Reaches site h (.exported (m, decl.name)) s
  /-- A script module has assigned what it observed to an own binding that it exports, and
  the binding has this value. -/
  | assigned {m : ModuleId} {i : Instance κ} {e : EnvironmentId} {decl : ExportDecl κ}
      {name : String} {value : Value} {since : List (Store κ)} {s t : Store κ}
      (known : site.registry.get? m = some i) (home : i.environment = some e)
      (script : i.kind = .script) (declared : decl ∈ i.record.exports)
      (own : ∀ specifier inner, decl.source ≠ .indirect specifier inner)
      (told : t ∈ site.world.past.events) (there : Reaches site h (.imported m name) t)
      (read : t.readImport e name = .ok value)
      (assigned : site.world.Took (Store.Assigns e (decl.binding .script) value) since)
      (later : s ∈ since) (held : s.readName e (decl.binding .script) = .ok value) :
      Reaches site h (.exported (m, decl.name)) s
  /-- A script module reads an import in place. -/
  | live {m : ModuleId} {i : Instance κ} {e : EnvironmentId} {environment : Environment}
      {b : ImportBinding} {name : String} {q : Registry.Question} {s : Store κ}
      (known : site.registry.get? m = some i) (home : i.environment = some e)
      (script : i.kind = .script) (present : s.environment? e = some environment)
      (bound : environment.imports.get? name = some b) (live : b.mode = .live)
      (asks : i.Asks name q) (there : Reaches site h (.exported q) s) :
      Reaches site h (.imported m name) s
  /-- Any other import is observed once, and is there from then on. -/
  | taken {m : ModuleId} {i : Instance κ} {e : EnvironmentId} {b : ImportBinding}
      {q : Registry.Question} {s s' t : Store κ} {later past : List (Store κ)}
      (known : site.registry.get? m = some i) (home : i.environment = some e)
      (observes : s.Observes e b s')
      (events : site.world.past.events = later ++ [s'] ++ s :: past)
      (settles : b.mode = .snapshot ∨ i.kind = .binary) (asks : i.Asks b.localName q)
      (there : Reaches site h (.exported q) s) (since : t ∈ later ++ [s']) :
      Reaches site h (.imported m b.localName) t

/-- The store from which an importer takes what it imports under a name. A script module reads
a live import in place; any other import is what the import step has observed. -/
inductive Takes (site : Site κ σ ℓ) (i : Instance κ) (e : EnvironmentId) (name : String) :
    Store κ → Prop where
  | live {environment : Environment} {b : ImportBinding} (script : i.kind = .script)
      (present : site.world.store.environment? e = some environment)
      (bound : environment.imports.get? name = some b) (live : b.mode = .live) :
      Takes site i e name site.world.store
  | taken {b : ImportBinding} {s s' : Store κ} {later past : List (Store κ)}
      (observes : s.Observes e b s')
      (events : site.world.past.events = later ++ [s'] ++ s :: past)
      (settles : b.mode = .snapshot ∨ i.kind = .binary) (named : b.localName = name) :
      Takes site i e name s

/-- Handles that come to an importer are those of the entities they started from. -/
structure Identical (site : Site κ σ ℓ) : Prop where
  /-- What a completed binary module exports of its own is a handle, and starts on its way. -/
  owned : ∀ m i e decl name, site.registry.get? m = some i → i.environment = some e →
    i.kind = .binary → i.progress = .completed → decl ∈ i.record.exports → decl.source = .own name →
      ∃ h, site.world.store.readEntity e name = .ok h ∧ h.bindingKind ≠ .value ∧
        ∀ s, site.Reaches h (.exported (m, decl.name)) s
  /-- Wherever it has come to an import, it is what the importer reads, both ways if the
  importer is a binary module. -/
  observed : ∀ h m i e name s, site.registry.get? m = some i → i.environment = some e →
    s ∈ site.world.past.events → site.Reaches h (.imported m name) s →
      s.readImport e name = .ok h ∧ (i.kind = .binary → s.readEntity e name = .ok h)
  /-- An importer that has passed its import step has taken all that it asks for. -/
  takes : ∀ m i e name q, site.registry.get? m = some i → i.environment = some e →
    site.world.Passed e → i.Asks name q →
      ∃ s ∈ site.world.past.events, site.Takes i e name s
  /-- Where the handle had come to the export that it asks for, the importer has the handle. -/
  arrives : ∀ h m i e name q s, site.registry.get? m = some i → i.environment = some e →
    i.Asks name q → site.Takes i e name s → site.Reaches h (.exported q) s →
      site.world.store.readImport e name = .ok h ∧
        (i.kind = .binary → site.world.store.readEntity e name = .ok h)

/-! ## Connections -/

section Wired

variable {setup : Setup κ σ ℓ} {site : Site κ σ ℓ}

/-- Every call leaves modules connected as they declare. -/
theorem Orderly.wired_make (orderly : Orderly setup site)
    (wired : Links.Wired ⟨site.registry, site.world.store⟩) (call : Call κ σ ℓ) :
    Links.Wired ⟨(site.make setup call).registry, (site.make setup call).world.store⟩ := by
  have ready := orderly.housed.resolvable orderly.stocked orderly.linkage.closed
  cases call with
  | build entry =>
    obtain ⟨grows, _⟩ := Orderly.build_yields setup site entry orderly.stocked
    exact wired.transfer orderly.housed ready (grows.retains orderly.linkage) (.refl _)
      fun _ => grows.linked_iff.mp
  | link n =>
    rcases Orderly.link_cases setup site n with same | ⟨g, links, member, ran, made⟩
    · rw [same]
      exact wired
    · rw [made]
      exact wired.link orderly.housed orderly.stocked orderly.linkage (orderly.graphs g member) ran
  | evaluate n =>
    rcases Orderly.evaluate_cases setup site n with same | ⟨l, outcome, machine, member, ran, made⟩
    · rw [same]
      exact wired
    · have evaluated := orderly.evaluated member ran
      have grows := evaluated.leads.present.1
      rw [made]
      cases outcome with
      | none => exact wired.transfer orderly.housed ready (.refl _) grows fun _ linked => linked
      | some result =>
        have same := (evaluated.advanced result rfl).same
        exact wired.transfer orderly.housed ready same.retains grows fun _ => same.linked_iff.mp
  | act program =>
    have grows := (Orderly.leads_act setup site program).present.1
    exact wired.transfer orderly.housed ready (.refl _) grows fun _ linked => linked
  | restock source => exact wired

theorem wired_of_run (setup : Setup κ σ ℓ) (memo : σ) (source : ℓ) (calls : List (Call κ σ ℓ)) :
    Links.Wired ⟨((start memo source).run setup calls).registry,
      ((start memo source).run setup calls).world.store⟩ := by
  induction calls using List.reverseRecOn with
  | nil =>
    refine ⟨fun m i e environment lives => ?_, fun m i e environment lives => ?_⟩
    · cases lives.known
    · cases lives.known
  | append_singleton calls call ih =>
    rw [run, List.foldl_append]
    exact (Orderly.of_run setup memo source calls).wired_make ih call

end Wired

/-! ## What the ways bear -/

section Bears

variable {setup : Setup κ σ ℓ} {site : Site κ σ ℓ} {m : ModuleId} {i : Instance κ}
  {e : EnvironmentId} {h : Value}

/-- What a waypoint gives when a handle has come to it. The slot that an export stands for holds
nothing else, and if code may assign it, it does hold the handle. -/
def Bears (site : Site κ σ ℓ) (h : Value) : Waypoint → Store κ → Prop
  | .exported q, s => ∃ q' slot, ReflTransGen site.registry.LeadsTo q q' ∧
      site.registry.Gives site.world.store q' slot ∧
      (∀ value, s.readSlot slot = .ok value → value = h) ∧
      (site.world.store.Assignable slot → s.readSlot slot = .ok h)
  | .imported m name, s => ∀ i e, site.registry.get? m = some i → i.environment = some e →
      s.readImport e name = .ok h ∧ (i.kind = .binary → s.readEntity e name = .ok h)

/-- Exports of a binary module have slots of their own, which code cannot assign. -/
theorem Durable.exports_apart (orderly : Orderly setup site) (durable : site.Durable)
    {environment : Environment} (known : site.registry.get? m = some i)
    (home : i.environment = some e) (binary : i.kind = .binary)
    (present : site.world.store.environment? e = some environment) :
    environment.exports.values.Nodup ∧
      ∀ slot ∈ environment.exports.values, ¬ site.world.store.Assignable slot := by
  have houses := orderly.housed.sound.houses e i.record environment ⟨m, i, known, home, rfl⟩ present
  exact durable.tidy.reserved.exports_apart present (houses.kind.trans binary)

/-- Since a binary module has published its exports, the slot of each holds the entity that the
export names, and code cannot assign it. -/
theorem Durable.published_at (orderly : Orderly setup site) (durable : site.Durable)
    {s s₀ s₁ : Store κ} {decl : ExportDecl κ} {name : String}
    (known : site.registry.get? m = some i) (home : i.environment = some e)
    (binary : i.kind = .binary) (publishes : s₀.Publishes e i.record s₁)
    (before : s₀ ∈ site.world.past.events) (fixes : s₁.Fixes s) (told : s ∈ site.world.past.events)
    (declared : decl ∈ i.record.exports)
    (source : decl.source = .own name ∨ decl.source = .observed name) :
    ∃ environment slot value, s.environment? e = some environment ∧
      environment.exports.get? decl.name = some slot ∧ ¬ s.Assignable slot ∧
      s.readEntity e name = .ok value ∧ s.readSlot slot = .ok value := by
  obtain ⟨sound, grows⟩ := orderly.past s₀ before
  have onward := ((Store.homely_publishAll i.record.exports).grows _ _ publishes).trans fixes.grows
  have fits := Record.wellFormed_of_validate (orderly.stocked.checked m i known)
  have own := decl.not_indirect source
  have apart : ∀ environment, s₀.environment? e = some environment →
      environment.exports.values.Nodup ∧
        ∀ slot ∈ environment.exports.values, ¬ s.Assignable slot := fun environment there => by
    obtain ⟨entities, present⟩ := grows.environments e environment there
    obtain ⟨once, unassigned⟩ := durable.exports_apart orderly known home binary present
    exact ⟨once, fun slot member assignable =>
      unassigned slot member (assignable.grows (orderly.past s told).2)⟩
  obtain ⟨environment, value, there, read, reads⟩ := Store.publishAll_reads fits.exportsDistinct
    (fun environment there => (apart environment there).1) publishes declared source
  have houses := sound.houses e i.record environment ⟨m, i, known, home, rfl⟩ there
  obtain ⟨slot, given⟩ := houses.given decl declared own
  obtain ⟨_, _, _, content, inStore, _⟩ := houses.exports decl.name slot given
  obtain ⟨entities, present⟩ := onward.environments e environment there
  have unassigned := (apart environment there).2 slot (Store.mem_values_of_get? given)
  exact ⟨_, slot, value, present, given, unassigned, fixes.readEntity read,
    fixes.readSlot (fun assignable => unassigned (assignable.grows fixes.grows))
      (reads slot content given inStore)⟩

/-- So it is in the present store. -/
theorem Durable.published (orderly : Orderly setup site) (durable : site.Durable)
    {since : List (Store κ)} {decl : ExportDecl κ} {name : String}
    (known : site.registry.get? m = some i) (home : i.environment = some e)
    (binary : i.kind = .binary) (took : site.world.Took (Store.Publishes e i.record) since)
    (declared : decl ∈ i.record.exports)
    (source : decl.source = .own name ∨ decl.source = .observed name) :
    ∃ slot value, site.registry.Gives site.world.store (m, decl.name) slot ∧
      ¬ site.world.store.Assignable slot ∧ site.world.store.readEntity e name = .ok value ∧
      site.world.store.readSlot slot = .ok value := by
  obtain ⟨s, s', later, past, publishes, rfl, events⟩ := took
  have own := decl.not_indirect source
  have fixes := durable.ordered.present Store.respected_fixes (s := s') (by simp [events])
  obtain ⟨environment, slot, value, present, given, rest⟩ := durable.published_at orderly known home
    binary publishes (by simp [events]) fixes orderly.present declared source
  exact ⟨slot, value, ⟨⟨i, known, decl, declared, rfl, own⟩,
    Registry.exportSlot?_eq_some_iff.mpr ⟨i, e, environment, known, home, present, given⟩⟩, rest⟩

/-- A slot that code cannot assign has held nothing but what it holds now. -/
theorem Durable.held (durable : site.Durable) {s : Store κ} {slot : SlotId} {value value' : Value}
    (told : s ∈ site.world.past.events) (apart : ¬ site.world.store.Assignable slot)
    (now : site.world.store.readSlot slot = .ok value) (read : s.readSlot slot = .ok value') :
    value' = value := by
  have fixes := durable.ordered.present Store.respected_fixes told
  have kept := fixes.readSlot (fun assignable => apart (assignable.grows fixes.grows)) read
  exact Except.ok.inj (kept.symm.trans now)

/-- An entity that a binary module has published is at its export. -/
theorem Durable.bears_published (orderly : Orderly setup site) (durable : site.Durable)
    {since : List (Store κ)} {decl : ExportDecl κ} {name : String} {s : Store κ}
    (known : site.registry.get? m = some i) (home : i.environment = some e)
    (binary : i.kind = .binary) (took : site.world.Took (Store.Publishes e i.record) since)
    (declared : decl ∈ i.record.exports)
    (source : decl.source = .own name ∨ decl.source = .observed name)
    (entity : site.world.store.readEntity e name = .ok h) (told : s ∈ site.world.past.events) :
    site.Bears h (.exported (m, decl.name)) s := by
  obtain ⟨slot, value, gives, apart, read, now⟩ :=
    durable.published orderly known home binary took declared source
  cases read.symm.trans entity
  exact ⟨_, slot, .refl, gives, fun value => durable.held told apart now,
    fun assignable => absurd assignable apart⟩

/-- A script module reads an own binding in the slot of each export that stands for it. -/
theorem Orderly.readName_eq (orderly : Orderly setup site)
    (wired : Links.Wired ⟨site.registry, site.world.store⟩) {decl : ExportDecl κ} {s : Store κ}
    {value : Value} {slot : SlotId} (known : site.registry.get? m = some i)
    (home : i.environment = some e) (script : i.kind = .script) (declared : decl ∈ i.record.exports)
    (gives : site.registry.Gives site.world.store (m, decl.name) slot)
    (told : s ∈ site.world.past.events)
    (read : s.readName e (decl.binding .script) = .ok value) : s.readSlot slot = .ok value := by
  obtain ⟨_, _, environment, known', home', present, given⟩ :=
    Registry.exportSlot?_eq_some_iff.mp gives.2
  cases known.symm.trans known'
  cases home.symm.trans home'
  have own := wired.stands m i e environment ⟨known, home, present⟩ script decl declared slot given
  unfold Store.readName at read
  obtain ⟨before, there, read⟩ := bind_eq_ok read
  obtain ⟨entities, kept⟩ := (orderly.past s told).2.environments e before
    (Store.environment_eq_ok.mp there)
  cases present.symm.trans kept
  simp only at own
  rwa [own] at read

/-- What has come on a way is a handle that has a declared type. -/
theorem Reaches.conforms {point : Waypoint} {s : Store κ} (orderly : Orderly setup site)
    (reaches : site.Reaches h point s) : ∃ type, site.world.store.Conforms type h := by
  induction reaches with
  | own known home binary published declared source entity =>
    obtain ⟨environment, there, held⟩ := Store.readEntity_eq_ok entity
    have houses := orderly.housed.sound.houses _ _ environment ⟨_, _, known, home, rfl⟩ there
    obtain ⟨type, _, conforms⟩ := houses.entities _ h held
    exact ⟨type, conforms⟩
  | onward edge there ih => exact ih
  | observed known home binary published declared source told there ih => exact ih
  | assigned known home script declared own told there read assigned later held ih => exact ih
  | live known home script present bound live asks there ih => exact ih
  | taken known home observes events settles asks there since ih => exact ih

/-- What an import is bound to is the slot to which its name leads. -/
theorem Durable.target_eq (orderly : Orderly setup site) (durable : site.Durable)
    (wired : Links.Wired ⟨site.registry, site.world.store⟩) {environment : Environment}
    {b : ImportBinding} {q q' : Registry.Question} {slot : SlotId}
    (known : site.registry.get? m = some i) (home : i.environment = some e)
    (present : site.world.store.environment? e = some environment)
    (member : b ∈ environment.imports.values) (asks : i.Asks b.localName q)
    (path : ReflTransGen site.registry.LeadsTo q q')
    (gives : site.registry.Gives site.world.store q' slot) : slot = b.target := by
  obtain ⟨decl, declared, named, depends, asked⟩ := asks
  have fits := Record.wellFormed_of_validate (orderly.stocked.checked m i known)
  have bound := (durable.tidy.declares m i e environment known home present).declared fits member
    declared named
  obtain ⟨target, depends', _, only⟩ :=
    (wired.sources m i e environment ⟨known, home, present⟩ b member).leads
  rw [bound.specifier] at depends'
  cases depends.symm.trans depends'
  rw [bound.name, asked] at only
  exact only q' slot path gives

/-- Whatever the way, the handle is there. -/
theorem Reaches.bears {point : Waypoint} {s : Store κ} (orderly : Orderly setup site)
    (durable : site.Durable) (wired : Links.Wired ⟨site.registry, site.world.store⟩)
    (reaches : site.Reaches h point s) (told : s ∈ site.world.past.events) :
    site.Bears h point s := by
  induction reaches with
  | own known home binary published declared source entity =>
    exact durable.bears_published orderly known home binary published declared (.inl source) entity
      told
  | onward edge there ih =>
    obtain ⟨q', slot, path, gives, rest⟩ := ih told
    exact ⟨q', slot, .head edge path, gives, rest⟩
  | observed known home binary published declared source before there ih =>
    have fixes := durable.ordered.present Store.respected_fixes before
    have entity := fixes.readEntity ((ih before _ _ known home).2 binary)
    exact durable.bears_published orderly known home binary published declared (.inr source) entity
      told
  | assigned known home script declared own before there read assigned later held ih =>
    cases read.symm.trans (ih before _ _ known home).1
    obtain ⟨slot, gives⟩ := orderly.resolvable.gives_of_ends
      (q := (_, _)) (Registry.linked_of_home known home) ⟨_, known, _, declared, rfl, own⟩
    have holds := orderly.readName_eq wired known home script declared gives told held
    exact ⟨_, slot, .refl, gives, fun value read => Except.ok.inj (read.symm.trans holds),
      fun _ => holds⟩
  | @live m i e environment b name q s known home script present bound live asks there ih =>
    obtain ⟨q', slot, path, gives, _, holds⟩ := ih told
    intro j e' known' home'
    cases known.symm.trans known'
    cases home.symm.trans home'
    obtain ⟨entities, kept⟩ := (orderly.past s told).2.environments e environment present
    have member := Store.mem_values_of_get? bound
    have named := (durable.tidy.declares m i e _ known home kept).localName_of_get? bound
    cases durable.target_eq orderly wired known home kept member (named ▸ asks) path gives
    have assignable := (wired.sources m i e _ ⟨known, home, kept⟩ b member).live script live
    refine ⟨?_, fun binary => by cases script.symm.trans binary⟩
    rw [Store.readImport_eq present bound, ImportBinding.readSlot, live]
    exact holds assignable
  | @taken m i e b q s s' t later past known home observes events settles asks there since ih =>
    obtain ⟨q', slot, path, gives, only, _⟩ := ih (by simp [events])
    intro j e' known' home'
    cases known.symm.trans known'
    cases home.symm.trans home'
    obtain ⟨value, ⟨read, here, taken⟩, reads⟩ :=
      durable.reads orderly known home observes events settles
    obtain ⟨environment, present, member, _⟩ := id observes
    obtain ⟨entities, kept⟩ := (orderly.past s (by simp [events])).2.environments e environment present
    cases durable.target_eq orderly wired known home kept member asks path gives
    cases only read here
    -- The handle has a type by now, so nothing was made for it then.
    have same : value = h := by
      rcases taken with same | ⟨s', made⟩
      · exact same
      · obtain ⟨type, conforms⟩ := there.conforms orderly
        exact conforms.observe_eq (orderly.past s (by simp [events])).2.toKeeps made
    exact same ▸ reads t since

/-- An importer that has passed its import step has taken what it imports from some store. -/
theorem Durable.takes (orderly : Orderly setup site) (durable : site.Durable) {name : String}
    {q : Registry.Question} (known : site.registry.get? m = some i) (home : i.environment = some e)
    (passed : site.world.Passed e) (asks : i.Asks name q) :
    ∃ s ∈ site.world.past.events, site.Takes i e name s := by
  obtain ⟨decl, declared, rfl, _⟩ := asks
  obtain ⟨s, told, before, there, observed⟩ := passed
  obtain ⟨entities, present⟩ := (orderly.past s told).2.environments e before there
  have fits := Record.wellFormed_of_validate (orderly.stocked.checked m i known)
  have declares := durable.tidy.declares m i e _ known home present
  obtain ⟨b, member, bound⟩ := declares.bound declared
  rw [← bound.localName]
  by_cases settles : b.mode = .snapshot ∨ i.kind = .binary
  · obtain ⟨_, s, s', later, past, observes, rfl, events⟩ := observed b member
    exact ⟨s, by simp [events], .taken observes events settles rfl⟩
  · obtain ⟨captured, apart⟩ := not_or.mp settles
    have script : i.kind = .script := by cases kind : i.kind <;> simp_all
    have live : b.mode = .live := by cases mode : b.mode <;> simp_all
    exact ⟨_, orderly.present, .live script present (declares.get? fits member) live⟩

/-- What had come to the export that an importer asks for when it took it has come to the
importer. -/
theorem Takes.imports (durable : site.Durable) {name : String} {q : Registry.Question} {s : Store κ}
    (known : site.registry.get? m = some i) (home : i.environment = some e) (asks : i.Asks name q)
    (takes : site.Takes i e name s) (there : site.Reaches h (.exported q) s) :
    site.Reaches h (.imported m name) site.world.store := by
  cases takes with
  | live script present bound live => exact .live known home script present bound live asks there
  | @taken b _ s' later past observes events settles named =>
    subst named
    refine .taken known home observes events settles asks there ?_
    have took : site.world.Took (fun s s' => s.Observes e b s') (later ++ [s']) :=
      ⟨_, _, _, _, observes, rfl, events⟩
    exact took.latest durable.ordered

end Bears

/-- Whatever happens to an engine, a handle that a completed binary module exports comes as
the same handle to every importer, on every way. -/
theorem handles_identical (setup : Setup κ σ ℓ) (memo : σ) (source : ℓ) {calls : List (Call κ σ ℓ)}
    (returns : Returns setup (start memo source) calls) {site : Site κ σ ℓ}
    (history : site = (start memo source).run setup calls) : site.Identical := by
  have orderly : Orderly setup site := history ▸ Orderly.of_run setup memo source calls
  have durable : site.Durable := history ▸ Durable.of_returns returns
  have wired : Links.Wired ⟨site.registry, site.world.store⟩ :=
    history ▸ wired_of_run setup memo source calls
  refine ⟨fun m i e decl name known home binary completed declared source => ?_,
    fun h m i e name s known home told reaches => reaches.bears orderly durable wired told i e known home,
    fun m i e name q known home passed asks => durable.takes orderly known home passed asks,
    fun h m i e name q s known home asks takes there => ?_⟩
  · obtain ⟨since, published⟩ := (durable.finished m i e known completed home).published binary
    obtain ⟨_, h, _, _, entity, _⟩ :=
      durable.published orderly known home binary published declared (.inl source)
    have starts : ∀ s, site.Reaches h (.exported (m, decl.name)) s := fun s =>
      .own known home binary published declared source entity
    obtain ⟨type, conforms⟩ := (starts site.world.store).conforms orderly
    exact ⟨h, entity, conforms.handle, starts⟩
  · have reaches := takes.imports durable known home asks there
    exact reaches.bears orderly durable wired orderly.present i e known home

/-- An assignment by the embedder is a step of the world. -/
theorem took_assign (setup : Setup κ σ ℓ) {site : Site κ σ ℓ} {e : EnvironmentId} {name : String}
    {value : Value} {s : Store κ} (ordered : site.world.Ordered Store.Fixes)
    (assigns : Store.assign e name value site.world.store = .ok ((), s)) :
    (site.make setup (.act (Program.operate (.assign e name value)))).world.Took
      (Store.Assigns e name value) [s] := by
  have made : (site.make setup (.act (Program.operate (.assign e name value)))).world =
      site.world.become s := by
    change ((Program.operate (.assign e name value)).run setup.interpreter.calls site.world).2 = _
    rw [Program.run_operate]
    unfold World.change
    have performed : (Operation.assign e name value).perform site.world.store = .ok ((), s) := assigns
    rw [performed]
  obtain ⟨past, latest⟩ := List.head?_eq_some_iff.mp ordered.latest
  refine ⟨site.world.store, s, [], past, assigns, rfl, ?_⟩
  rw [made, World.become, Chronicle.events_add, latest]
  rfl

end Site

/-- A computation has succeeded where it has a result. -/
private theorem eq_ok_of_toOption {ε α : Type} {x : Except ε α} {a : α} (held : x.toOption = some a) :
    x = .ok a := by
  cases x with
  | error e => cases held
  | ok b => exact congrArg _ (Option.some.inj held)

namespace Sample

/-- A binary module that exports a global of its own. -/
def owner : Record Unit where
  requested := []
  imports := []
  exports := [⟨"g", .global, .numeric ⟨.i64, false⟩, .own "g"⟩]
  stars := []
  body := .binary ⟨[⟨"g", ⟨.i64, false⟩, .constant (.i64 5)⟩], [], [], [], [], [], none⟩

/-- A binary module that exports the global as it imports it. -/
def carrier : Record Unit where
  requested := ["owner"]
  imports := [⟨"owner", "g", "g", .global, .numeric ⟨.i64, false⟩⟩]
  exports := [⟨"h", .global, .numeric ⟨.i64, false⟩, .observed "g"⟩]
  stars := []
  body := .binary ⟨[], [], [], [], [], [], none⟩

/-- A script module that imports the global and exports a binding of its own. -/
def relay : Record Unit where
  requested := ["carrier"]
  imports := [⟨"carrier", "h", "g", .value, .none⟩]
  exports := [⟨"x", .value, .none, .own "x"⟩]
  stars := []
  body := .script none

/-- A script module that gives on what the relay exports. -/
def hub : Record Unit where
  requested := ["relay"]
  imports := []
  exports := []
  stars := ["relay"]
  body := .script none

/-- A script module that imports the binding. -/
def user : Record Unit where
  requested := ["hub"]
  imports := [⟨"hub", "x", "x", .value, .none⟩]
  exports := []
  stars := []
  body := .script none

/-- Five modules, one behind the other. -/
def handing : Setup Unit Unit Unit where
  resolver specifier _ := .ok specifier
  loader identity source :=
    (.record (if identity = "user" then user else if identity = "hub" then hub
      else if identity = "relay" then relay else if identity = "carrier" then carrier
      else owner), source)
  limits := ⟨1, 10⟩
  interpreter := ⟨⟨fun _ _ => .done (.ok ()), fun _ _ _ => .done (.ok .undefined),
    fun _ _ _ => .done (.ok [])⟩, 1⟩

/-- All modules are evaluated. -/
def arranged : List (Call Unit Unit Unit) := [.build "user", .link 0, .evaluate 0]

/-- After that the binding of the relay is assigned the global. -/
def handed : List (Call Unit Unit Unit) :=
  arranged ++ [.act (Program.operate (.assign ⟨2⟩ "x" (.global ⟨0⟩)))]

theorem returns_arranged : Site.Returns handing (.start () ()) arranged :=
  ⟨fun _ => trivial, fun _ => trivial, fun never => absurd rfl never, trivial⟩

theorem returns_handed : Site.Returns handing (.start () ()) handed :=
  ⟨fun _ => trivial, fun _ => trivial, fun _ => by simp only [Site.Answers]; decide +kernel,
    fun _ => trivial, trivial⟩

/-- A module of the sample when it is completed. -/
def standing (identity : String) (record : Record Unit) (dependencies : Dependencies)
    (e c : Nat) : Instance Unit :=
  ⟨identity, record, some dependencies, some ⟨e⟩, some ⟨c⟩, .completed⟩

theorem instances_handed : ((Site.start () ()).run handing handed).registry.instances =
    #[standing "user" user [("hub", ⟨1⟩)] 0 4, standing "hub" hub [("relay", ⟨2⟩)] 1 3,
      standing "relay" relay [("carrier", ⟨3⟩)] 2 2, standing "carrier" carrier [("owner", ⟨4⟩)] 3 1,
      standing "owner" owner [] 4 0] := by
  decide +kernel

private theorem took_handed : ∃ s, ((Site.start () ()).run handing handed).world.Took
    (Store.Assigns ⟨2⟩ "x" (.global ⟨0⟩)) [s] := by
  have allowed : (Store.assign ⟨2⟩ "x" (.global ⟨0⟩)
      ((Site.start () ()).run handing arranged).world.store).toOption.isSome := by
    decide +kernel
  obtain ⟨⟨_, s⟩, allowed⟩ := Option.isSome_iff_exists.mp allowed
  have before := (Site.Durable.of_returns returns_arranged).ordered
  exact ⟨s, Site.took_assign handing before (eq_ok_of_toOption allowed)⟩

end Sample

/-- The global comes to the user through all of them: the carrier exports what it imports, the
relay has assigned what it has taken, the hub gives it on and the user reads it in place. -/
theorem Site.user_identical : ∃ site : Site Unit Unit Unit,
    site = (Site.start () ()).run Sample.handing Sample.handed ∧
      site.Reaches (.global ⟨0⟩) (.imported ⟨0⟩ "x") site.world.store ∧
      site.world.store.readImport ⟨0⟩ "x" = .ok (.global ⟨0⟩) := by
  obtain ⟨owned, observed, taken, arrives⟩ :=
    Site.handles_identical Sample.handing () () Sample.returns_handed rfl
  have orderly := Site.Orderly.of_run Sample.handing () () Sample.handed
  have durable := Site.Durable.of_returns Sample.returns_handed
  obtain ⟨s, took⟩ := Sample.took_handed
  have known := Sample.instances_handed
  generalize ended : (Site.start () ()).run Sample.handing Sample.handed = site at *
  have reads : (site.world.store.readEntity ⟨4⟩ "g").toOption = some (.global ⟨0⟩) ∧
      (site.world.store.readName ⟨2⟩ "x").toOption = some (.global ⟨0⟩) ∧
      ((site.world.store.environment? ⟨0⟩).bind fun there => there.imports.get? "x").map (·.mode) =
        some .live := by
    rw [← ended]
    decide +kernel
  obtain ⟨entity, held, live⟩ := reads
  have registered : ∀ n i, site.registry.instances[n]? = some i → site.registry.get? ⟨n⟩ = some i :=
    fun _ _ there => there
  rw [known] at registered
  have passed : ∀ n i e, site.registry.get? ⟨n⟩ = some i → i.progress = .completed →
      i.environment = some e → site.world.Passed e := fun n i e known completed home =>
    (durable.finished ⟨n⟩ i e known completed home).passed
  -- The global starts from its owner, and the carrier exports what it imports.
  obtain ⟨h, started, _, starts⟩ := owned ⟨4⟩ _ ⟨4⟩ ⟨"g", .global, .numeric ⟨.i64, false⟩, .own "g"⟩ "g"
    (registered 4 _ rfl) rfl rfl rfl List.mem_cons_self rfl
  cases started.symm.trans (eq_ok_of_toOption entity)
  have carrier := registered 3 _ rfl
  have asks : (Sample.standing "carrier" Sample.carrier [("owner", ⟨4⟩)] 3 1).Asks "g" (⟨4⟩, "g") :=
    ⟨_, List.mem_cons_self, rfl, rfl, rfl⟩
  obtain ⟨s, _, takes⟩ := taken _ _ _ _ _ carrier rfl (passed 3 _ _ carrier rfl rfl) asks
  have carried := takes.imports durable carrier rfl asks (starts s)
  obtain ⟨since, published⟩ :=
    (durable.finished ⟨3⟩ _ ⟨3⟩ carrier rfl rfl).published rfl
  have gives : (⟨"h", .global, .numeric ⟨.i64, false⟩, .observed "g"⟩ : ExportDecl Unit) ∈
      Sample.carrier.exports := List.mem_cons_self
  have exported : ∀ s, site.Reaches (.global ⟨0⟩) (.exported (⟨3⟩, "h")) s := fun s =>
    .observed carrier rfl rfl published gives rfl orderly.present carried
  -- The relay takes it and has assigned it.
  have relay := registered 2 _ rfl
  have asks : (Sample.standing "relay" Sample.relay [("carrier", ⟨3⟩)] 2 2).Asks "g" (⟨3⟩, "h") :=
    ⟨_, List.mem_cons_self, rfl, rfl, rfl⟩
  obtain ⟨s, _, takes⟩ := taken _ _ _ _ _ relay rfl (passed 2 _ _ relay rfl rfl) asks
  have relayed := takes.imports durable relay rfl asks (exported s)
  have binds : (⟨"x", .value, .none, .own "x"⟩ : ExportDecl Unit) ∈ Sample.relay.exports :=
    List.mem_cons_self
  have read := (observed _ _ _ _ _ _ relay rfl orderly.present relayed).1
  have assigned : site.Reaches (.global ⟨0⟩) (.exported (⟨2⟩, "x")) site.world.store :=
    .assigned relay rfl rfl binds (by simp) orderly.present relayed read took
      (took.latest durable.ordered) (eq_ok_of_toOption held)
  -- The hub gives it on, and the user reads it in place.
  have hub := registered 1 _ rfl
  have star : site.registry.LeadsTo (⟨1⟩, "x") (⟨2⟩, "x") :=
    .star hub (by simp [Sample.standing, Sample.hub]) (by decide) List.mem_cons_self rfl
  have user := registered 0 _ rfl
  have asks : (Sample.standing "user" Sample.user [("hub", ⟨1⟩)] 0 4).Asks "x" (⟨1⟩, "x") :=
    ⟨_, List.mem_cons_self, rfl, rfl, rfl⟩
  obtain ⟨b, bound, mode⟩ := Option.map_eq_some_iff.mp live
  obtain ⟨environment, there, bound⟩ := Option.bind_eq_some_iff.mp bound
  have takes : site.Takes (Sample.standing "user" Sample.user [("hub", ⟨1⟩)] 0 4) ⟨0⟩ "x" _ :=
    .live rfl there bound mode
  have there : site.Reaches (.global ⟨0⟩) (.exported (⟨1⟩, "x")) site.world.store :=
    .onward star assigned
  exact ⟨site, rfl, takes.imports durable user rfl asks there,
    (arrives _ _ _ _ _ _ _ user rfl asks takes there).1⟩

end MixedModules
