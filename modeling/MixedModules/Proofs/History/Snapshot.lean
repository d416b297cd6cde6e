import MixedModules.Proofs.History.Durable

/-! What an importer has observed stays what it was.

A snapshot is read in a slot that is filled once, and an import that is read in place
stands for an export of a binary module, which code cannot assign. So whatever an
exporter does later, an import that was observed is read alike at every later moment,
and a binary module finds the same value among its entities. -/
namespace MixedModules

variable {κ σ ℓ : Type}

namespace Store

variable {s s' : Store κ} {e : EnvironmentId} {environment : Environment} {record : Record κ}
  {b : ImportBinding} {i : SlotId} {name : String} {value : Value}

theorem readImport_eq (known : s.environment? e = some environment)
    (found : environment.imports.get? name = some b) : s.readImport e name = s.readSlot b.readSlot := by
  unfold readImport
  rw [environment_eq_ok.mpr known]
  simp only [bind, Except.bind, found]

/-- An import is read as before where its slot is not assigned. -/
theorem Fixes.readImport (fixes : s.Fixes s') (known : s.environment? e = some environment)
    (found : environment.imports.get? name = some b) (apart : ¬ s.Assignable b.readSlot)
    (read : s.readImport e name = .ok value) : s'.readImport e name = .ok value := by
  obtain ⟨entities, known'⟩ := fixes.grows.environments e environment known
  rw [readImport_eq known found] at read
  rw [readImport_eq known' found]
  exact fixes.readSlot apart read

/-- Code can assign neither the slot of a snapshot, nor a slot that a binary module reads. -/
theorem Reserved.not_assignable (reserved : s.Reserved) (known : s.environment? e = some environment)
    (member : b ∈ environment.imports.values) (bound : s.Bound record b)
    (settles : b.mode = .snapshot ∨ record.kind = .binary) : ¬ s.Assignable b.readSlot := by
  unfold ImportBinding.readSlot
  cases mode : b.mode with
  | snapshot =>
    exact reserved.kept e environment b.own known
      (List.mem_append_left _ (List.mem_map.mpr ⟨b, member, rfl⟩))
  | live =>
    intro assignable
    have binary := settles.resolve_left (by simp [mode])
    obtain ⟨slot, there, checked⟩ := bound.checked binary mode
    obtain ⟨slot', there', untyped⟩ := reserved.untyped b.target assignable
    cases there.symm.trans there'
    exact checkLink_typed checked untyped

/-- What is captured is what is read then. -/
theorem readSlot_setSnapshot {slot : Slot} (known : s.slot? i = some slot) (value : Value) :
    (s.modifySlot i fun slot => slot.setSnapshot value).readSlot i = .ok value := by
  have captured : (s.modifySlot i fun slot => slot.setSnapshot value).slot? i =
      some (slot.setSnapshot value) := by
    rw [slot?_modifySlot, if_pos rfl, known]
    rfl
  exact readSlot_of_value captured rfl

/-- An entity that is put changes no import. -/
theorem readImport_install (known : s.environment? e = some environment)
    (found : environment.imports.get? name = some b) (other : String) (value : Value) :
    (s.install e other value).readImport e name = s.readImport e name := by
  have installed := environment?_install s e e other value
  rw [if_pos rfl, known] at installed
  rw [readImport_eq installed found, readImport_eq known found]
  rfl

/-- What an importer takes of the value in a slot: the value, or what a binary module
observes for it. -/
def Takes (s : Store κ) (b : ImportBinding) (value : Value) : Prop :=
  ∃ read, s.readSlot b.target = .ok read ∧
    (value = read ∨ ∃ s', s.observe b.kind b.type read = .ok (value, s'))

/-- When an import is observed that is not read in place by a script module, one value is
read from then on, both ways by a binary module. -/
theorem Observes.reads (observes : s.Observes e b s') (known : s.environment? e = some environment)
    (found : environment.imports.get? b.localName = some b) (kind : environment.kind = record.kind)
    (own : ∃ slot, s.slot? b.own = some slot)
    (settles : b.mode = .snapshot ∨ record.kind = .binary) :
    ∃ value, s.Takes b value ∧ s'.readImport e b.localName = .ok value ∧
      (record.kind = .binary → s'.readEntity e b.localName = .ok value) := by
  obtain ⟨there, known', _, ran⟩ := observes
  cases known.symm.trans known'
  obtain ⟨slot, own⟩ := own
  have never (script : environment.kind = .script) (live : b.mode = .live) : False := by
    rcases settles with snapshot | binary
    · cases live.symm.trans snapshot
    · cases script.symm.trans (kind.trans binary)
  cases importStep_of_observeImport ran with
  | left script live => exact (never script live).elim
  | @installed value _ live read =>
    refine ⟨value, ⟨value, read, .inl rfl⟩, ?_,
      fun _ => (readEntity_install known ..).trans (if_pos rfl)⟩
    rw [readImport_install known found, readImport_eq known found, ImportBinding.readSlot, live]
    exact read
  | @captured value script snapshot read =>
    refine ⟨value, ⟨value, read, .inl rfl⟩, ?_, fun binary => ?_⟩
    · rw [readImport_eq ((environment?_modifySlot ..).trans known) found, ImportBinding.readSlot, snapshot]
      exact readSlot_setSnapshot own value
    · cases script.symm.trans (kind.trans binary)
  | @checked read value s₁ _ snapshot held observes =>
    have same := (observe_spec observes).1
    have known₁ : (s₁.modifySlot b.own fun slot => slot.setSnapshot value).environment? e =
        some environment := by
      rw [environment?_modifySlot, same.environment?_eq, known]
    have own₁ : s₁.slot? b.own = some slot := by rw [slot?, same.slots, ← slot?, own]
    refine ⟨value, ⟨read, held, .inr ⟨s₁, observes⟩⟩, ?_,
      fun _ => (readEntity_install known₁ ..).trans (if_pos rfl)⟩
    rw [readImport_install known₁ found, readImport_eq known₁ found, ImportBinding.readSlot, snapshot]
    exact readSlot_setSnapshot own₁ value

end Store

namespace Site

variable {setup : Setup κ σ ℓ} {site : Site κ σ ℓ}

/-- An import that was observed is read alike at every moment since. -/
theorem Durable.reads (orderly : Orderly setup site) (durable : site.Durable) {m : ModuleId}
    {i : Instance κ} {e : EnvironmentId} {b : ImportBinding} {s s' : Store κ}
    {later past : List (Store κ)} (known : site.registry.get? m = some i)
    (home : i.environment = some e) (observes : s.Observes e b s')
    (events : site.world.past.events = later ++ [s'] ++ s :: past)
    (settles : b.mode = .snapshot ∨ i.kind = .binary) :
    ∃ value, s.Takes b value ∧ ∀ t ∈ later ++ [s'], t.readImport e b.localName = .ok value ∧
      (i.kind = .binary → t.readEntity e b.localName = .ok value) := by
  have fits := Record.wellFormed_of_validate (orderly.stocked.checked m i known)
  have earlier : s ∈ site.world.past.events := by simp [events]
  have next : s' ∈ site.world.past.events := by simp [events]
  obtain ⟨sound, grows⟩ := orderly.past s earlier
  obtain ⟨_, grows'⟩ := orderly.past s' next
  obtain ⟨environment, there, member, ran⟩ := id observes
  -- What the module has now is what it had then, but for its entities.
  obtain ⟨entities, present⟩ := grows.environments e environment there
  have houses := sound.houses e i.record environment ⟨m, i, known, home, rfl⟩ there
  have bound := houses.imports b member
  have found : environment.imports.get? b.localName = some b :=
    (durable.tidy.declares m i e _ known home present).get? fits member
  obtain ⟨slot, own, _⟩ := bound.own
  obtain ⟨value, taken, read, entity⟩ := observes.reads there found houses.kind ⟨slot, own⟩ settles
  have steps := durable.ordered.steps
  rw [events, List.append_assoc, List.pairwise_append] at steps
  have apart : ¬ s'.Assignable b.readSlot := fun assignable =>
    durable.tidy.reserved.not_assignable present member (bound.kept grows.toKeeps) settles
      (assignable.grows grows')
  have onward := (Store.homely_observeImport environment b).grows s s' ran
  obtain ⟨entities', there'⟩ := onward.environments e environment there
  refine ⟨value, taken, fun t told => ?_⟩
  rcases List.mem_append.mp told with later | now
  · have fixes := steps.2.2 t later s' (by simp)
    exact ⟨fixes.readImport there' found apart read, fun binary => fixes.readEntity (entity binary)⟩
  · cases List.mem_singleton.mp now
    exact ⟨read, entity⟩

/-- Imports that were observed stay as they are, and are read alike both ways. -/
structure Stable (site : Site κ σ ℓ) : Prop where
  /-- Whatever is completed has passed its import step. -/
  passed : ∀ m i e, site.registry.get? m = some i → i.environment = some e →
    i.progress = .completed → site.world.Passed e
  /-- Once a snapshot was taken, the same value is read at every moment since. -/
  snapshots : ∀ m i e b since, site.registry.get? m = some i → i.environment = some e →
    site.world.Took (Store.Observes e b) since → b.mode = .snapshot →
      ∃ value, ∀ s ∈ since, s.readImport e b.localName = .ok value
  /-- When a binary module has passed its import step, every import is there both ways and
  has the same value, at every moment since it was observed. -/
  agree : ∀ m i e environment, site.registry.get? m = some i → i.environment = some e →
    i.kind = .binary → site.world.Passed e → site.world.store.environment? e = some environment →
      ∀ name b, environment.imports.get? name = some b → ∃ since value,
        site.world.Took (Store.Observes e b) since ∧
        ∀ s ∈ since, s.readImport e name = .ok value ∧ s.readEntity e name = .ok value

/-- Whatever happens to an engine, at any moment of it imports that were observed stay as
they are, and binary modules read them alike both ways. -/
theorem imports_stable (setup : Setup κ σ ℓ) (memo : σ) (source : ℓ) {calls : List (Call κ σ ℓ)}
    (returns : Returns setup (start memo source) calls) {site : Site κ σ ℓ}
    (history : site = (start memo source).run setup calls) : site.Stable := by
  have orderly : Orderly setup site := history ▸ Orderly.of_run setup memo source calls
  have durable : site.Durable := history ▸ Durable.of_returns returns
  refine ⟨fun m i e known home completed => (durable.finished m i e known completed home).passed,
    fun m i e b since known home took snapshot => ?_,
    fun m i e environment known home binary passed present name b held => ?_⟩
  · obtain ⟨s, s', later, past, observes, rfl, events⟩ := took
    obtain ⟨value, _, reads⟩ := durable.reads orderly known home observes events (.inl snapshot)
    exact ⟨value, fun t told => (reads t told).1⟩
  · obtain ⟨s, told, before, there, observed⟩ := passed
    obtain ⟨entities, kept⟩ := (orderly.past s told).2.environments e before there
    cases present.symm.trans kept
    obtain ⟨since, took⟩ := observed b (Store.mem_values_of_get? held)
    obtain ⟨s, s', later, past, observes, rfl, events⟩ := id took
    obtain ⟨value, _, reads⟩ := durable.reads orderly known home observes events (.inr binary)
    have named : b.localName = name :=
      (durable.tidy.declares m i e _ known home present).localName_of_get? held
    refine ⟨_, value, took, fun t told => ?_⟩
    rw [← named]
    exact ⟨(reads t told).1, (reads t told).2 binary⟩

end Site

namespace Sample

/-- A script module that exports a binding of its own. -/
def notes : Record Unit where
  requested := []
  imports := []
  exports := [⟨"x", .value, .none, .own "x"⟩]
  stars := []
  body := .script (some ())

/-- A binary module that takes the binding as a global. -/
def taker : Record Unit where
  requested := ["notes"]
  imports := [⟨"notes", "x", "x", .global, .numeric ⟨.i64, false⟩⟩]
  exports := []
  stars := []
  body := .binary ⟨[], [], [], [], [], [], none⟩

/-- The body of a script module assigns its binding. -/
def taking : Setup Unit Unit Unit where
  resolver specifier _ := .ok specifier
  loader identity source := (.record (if identity = "notes" then notes else taker), source)
  limits := ⟨1, 10⟩
  interpreter := ⟨⟨fun _ home => Program.operate (.assign home "x" (.bigint 7)),
    fun _ _ _ => .done (.ok .undefined), fun _ _ _ => .done (.ok [])⟩, 1⟩

/-- The taker is evaluated, and then the binding is assigned once more. -/
def changed : List (Call Unit Unit Unit) :=
  [.build "taker", .link 0, .evaluate 0, .act (Program.operate (.assign ⟨1⟩ "x" (.bigint 8)))]

theorem returns_changed : Site.Returns taking (.start () ()) changed :=
  ⟨fun _ => trivial, fun _ => trivial, fun _ => by simp only [Site.Answers]; decide +kernel,
    fun _ => trivial, trivial⟩

end Sample

/-- What the taker has taken is the same global at every moment since, although the binding
that it took has another value by then. -/
theorem Site.taker_stable : ∃ (site : Site Unit Unit Unit) (since : List (Store Unit)),
    site = (Site.start () ()).run Sample.taking Sample.changed ∧ site.world.store ∈ since ∧
      (site.world.store.readName ⟨1⟩ "x").toOption = some (.bigint 8) ∧
      ∀ s ∈ since, s.readImport ⟨0⟩ "x" = .ok (.global ⟨0⟩) ∧ s.readEntity ⟨0⟩ "x" = .ok (.global ⟨0⟩) := by
  obtain ⟨passed, _, agree⟩ := Site.imports_stable Sample.taking () () Sample.returns_changed rfl
  have orderly := Site.Orderly.of_run Sample.taking () () Sample.changed
  have durable := Site.Durable.of_returns Sample.returns_changed
  generalize ended : (Site.start () ()).run Sample.taking Sample.changed = site at *
  have registered : (site.registry.get? ⟨0⟩).map (fun i => (i.environment, i.kind, i.progress)) =
      some (some ⟨0⟩, .binary, .completed) := by
    rw [← ended]
    decide +kernel
  have bound : ((site.world.store.environment? ⟨0⟩).bind fun there => there.imports.get? "x").isSome := by
    rw [← ended]
    decide +kernel
  have present : (site.world.store.readEntity ⟨0⟩ "x").toOption = some (.global ⟨0⟩) ∧
      (site.world.store.readName ⟨1⟩ "x").toOption = some (.bigint 8) := by
    rw [← ended]
    decide +kernel
  obtain ⟨i, known, parts⟩ := Option.map_eq_some_iff.mp registered
  obtain ⟨home, parts⟩ := Prod.mk.inj parts
  obtain ⟨binary, completed⟩ := Prod.mk.inj parts
  obtain ⟨b, bound⟩ := Option.isSome_iff_exists.mp bound
  obtain ⟨environment, there, held⟩ := Option.bind_eq_some_iff.mp bound
  obtain ⟨since, value, took, same⟩ := agree ⟨0⟩ i ⟨0⟩ environment known home binary
    (passed ⟨0⟩ i ⟨0⟩ known home completed) there "x" b held
  have latest := took.latest durable.ordered
  have only : value = .global ⟨0⟩ := by
    have entity := (same _ latest).2
    rw [entity] at present
    exact Option.some.inj present.1
  exact ⟨site, since, rfl, latest, present.2, only ▸ same⟩

end MixedModules
