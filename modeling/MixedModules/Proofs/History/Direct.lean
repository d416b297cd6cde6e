import MixedModules.Proofs.Execution.Ending
import MixedModules.Proofs.History.Entanglement
import MixedModules.Proofs.History.Publication

/-! What a binary module imports from a binary module directly.

The import is read in place and nothing is checked then. The exporter is completed, and has
published all its exports, or it waits for the importer on the way down, and then a script
module is between the two. What is read is of the type that the import declares, since the
link has compared the types. -/
namespace MixedModules
open Relation

variable {κ σ ℓ : Type}

/-- A specifier of a module leads to a module that it depends on. -/
theorem Registry.dependsOn_of_dependency? {r : Registry κ} {m target : ModuleId} {i : Instance κ}
    {specifier : String} (known : r.get? m = some i)
    (depends : i.dependency? specifier = some target) : r.DependsOn m target := by
  refine ⟨i, known, ?_⟩
  unfold Instance.dependency? at depends
  obtain ⟨dependencies, resolved, depends⟩ := Option.bind_eq_some_iff.mp depends
  obtain ⟨d, found, same⟩ := Option.bind_eq_some_iff.mp depends
  cases same
  rw [Instance.targets, resolved]
  exact List.mem_map_of_mem (List.mem_of_find?_eq_some found)

/-- A module on the way down from which the module that is run depends closes a circle. -/
theorem Machine.Arrives.circle {interpreter : Interpreter κ σ} {r : Registry κ} {traversal : Nat}
    {m x target : ModuleId} {machine moment : Machine κ σ} {way : List ModuleId}
    (arrives : Machine.Arrives interpreter r traversal [] m machine way moment)
    (settled : r.Settled) (top : way.head? = some x) (depends : r.DependsOn x target)
    (running : moment.registry.progressOf? target = some .inProgress) :
    ∃ circle, r.Circle x target circle := by
  obtain ⟨seen, descends⟩ := arrives.descends
  obtain ⟨_, done, here, sound, _⟩ := descends.under
  rw [List.append_nil] at here sound
  obtain ⟨before, after, rfl⟩ := List.append_of_mem ((here.inProgress_iff sound settled).mp running)
  have parts : before ++ target :: after = (before ++ [target]) ++ after := by simp
  have inside : ∀ y ∈ (before ++ [target]).reverse, y ∈ before ++ target :: after := fun y member => by
    rw [parts]
    exact List.mem_append_left _ (List.mem_reverse.mp member)
  refine ⟨(before ++ [target]).reverse, ?_, fun y member => (sound.fresh y (.inl (inside y member))).1,
    ?_, by simp, ?_, depends⟩
  · have once := sound.once
    rw [parts] at once
    exact List.nodup_reverse.mpr (List.nodup_append.mp once).1
  · have chain := arrives.chain
    rw [parts] at chain
    exact List.isChain_reverse.mpr (List.isChain_append.mp chain).1
  · rw [List.getLast?_reverse, ← top, parts, List.head?_append_of_ne_nil (before ++ [target]) (by simp)]

namespace Site

variable {setup : Setup κ σ ℓ} {site : Site κ σ ℓ}

/-- What a binary module `m` finds in the store `s` when its import step comes to an import that
is bound to an export of the binary module `d`, on which it depends. `now` is the registry at
this moment. -/
structure Finds (site : Site κ σ ℓ) (now : Registry κ) (s : Store κ) (m d : ModuleId)
    (e : EnvironmentId) (b : ImportBinding) : Prop where
  declared : ∃ i, site.registry.get? m = some i ∧ ∃ decl ∈ i.record.imports, b.Declared decl
  /-- What is read is installed, and nothing is checked. -/
  taken : ∀ environment, s.environment? e = some environment →
    Store.observeImport e environment b s = (s.readSlot b.target).map fun value =>
      ((), s.install e b.localName value)
  conforms : ∀ value, s.readSlot b.target = .ok value → s.Conforms b.type value
  /-- The read fails only while the exporter waits for the importer, with a script module between
  the two. -/
  fails : ∀ reason, s.readSlot b.target = .error reason →
    (∃ j name, site.registry.get? d = some j ∧ reason = .uninitialized j.identity name) ∧
      now.progressOf? d = some .inProgress ∧ ∃ circle, site.registry.Circle m d circle ∧
        ∃ x ∈ circle, ∃ i, site.registry.get? x = some i ∧ i.kind = .script
  succeeds : now.progressOf? d ≠ some .inProgress ∨
    site.registry.componentOf? d ≠ site.registry.componentOf? m →
      ∃ value, s.readSlot b.target = .ok value

/-- An import of a binary module that is bound to an export of a binary module is read in
place. -/
theorem Orderly.direct_live (orderly : Orderly setup site)
    (wired : Links.Wired ⟨site.registry, site.world.store⟩)
    (reserved : site.world.store.Reserved) {m d : ModuleId} {i j : Instance κ} {e : EnvironmentId}
    {environment : Environment} {b : ImportBinding} {name : String}
    (lives : Links.Lives ⟨site.registry, site.world.store⟩ m i e environment)
    (member : b ∈ environment.imports.values) (binary : i.kind = .binary)
    (owner : site.registry.get? d = some j) (binary' : j.kind = .binary)
    (owned : site.registry.exportSlot? site.world.store d name = some b.target) : b.mode = .live := by
  have sources := wired.sources m i e environment lives b member
  obtain ⟨origin, known, mode⟩ := sources.mode
  refine mode.mpr (binary.trans ?_)
  cases script : origin.kind with
  | binary => rfl
  | script =>
    -- The slot would be one of the own bindings of the origin.
    obtain ⟨_, inner, _, _, ⟨k, known', decl, declared, named, direct⟩, given⟩ := sources.origin
    cases known.symm.trans known'
    obtain ⟨_, e₁, first, known'', home₁, present₁, given₁⟩ :=
      Registry.exportSlot?_eq_some_iff.mp given
    cases known.symm.trans known''
    obtain ⟨_, e₂, second, owner', home₂, present₂, given₂⟩ :=
      Registry.exportSlot?_eq_some_iff.mp owned
    cases owner.symm.trans owner'
    subst named
    have own := wired.stands _ origin e₁ first ⟨known, home₁, present₁⟩ script decl declared _ given₁
    obtain ⟨published, _⟩ := orderly.export_published owner home₂ binary' orderly.present present₂ given₂
    exact absurd ⟨e₁, first, present₁, Store.mem_values_of_get? own⟩
      (reserved.kept e₂ second b.target present₂ (List.mem_append_right _ published))

/-- An export of a binary module gives its value, or it is not there yet. -/
theorem Orderly.export_reads (orderly : Orderly setup site)
    (descends : site.world.Descends setup.interpreter site.registry.Home) {m : ModuleId}
    {i : Instance κ} {e : EnvironmentId} {environment : Environment} {s : Store κ} {name : String}
    {slot : SlotId} (known : site.registry.get? m = some i) (home : i.environment = some e)
    (binary : i.kind = .binary) (told : s ∈ site.world.past.events)
    (present : s.environment? e = some environment)
    (given : environment.exports.get? name = some slot) : (∃ value, s.readSlot slot = .ok value) ∨
      ∃ label, s.readSlot slot = .error (.uninitialized environment.identity label) := by
  have reserved := descends.lineage.reserved s told
  obtain ⟨published, _⟩ := orderly.export_published known home binary told present given
  have houses := (orderly.past s told).1.houses e i.record environment ⟨m, i, known, home, rfl⟩ present
  obtain ⟨_, _, _, held, there, owner, _⟩ := houses.exports name slot given
  have fit := orderly.fitting descends told e environment present slot
    (List.mem_append_right _ (List.mem_append_right _ published)) held there
  rcases fit.of_published reserved present published with vacant | ⟨value, live⟩
  · refine .inr ⟨held.name, ?_⟩
    simp [Store.readSlot, there, Slot.read, Slot.value?, vacant, SlotContent.value?, owner]
  · exact .inl ⟨value, Store.readSlot_of_value there (by rw [Slot.value?, live]; rfl)⟩

/-- A history that can happen can have ended earlier. -/
theorem Returns.earlier {calls : List (Call κ σ ℓ)} {last : Call κ σ ℓ}
    (returns : Returns setup site (calls ++ [last])) : Returns setup site calls := by
  induction calls generalizing site with
  | nil => trivial
  | cons call rest ih => exact ⟨fun _ => returns.1 (by simp), ih returns.2⟩

section Moment

variable {n : Nat} {m d : ModuleId} {rest : List ModuleId} {moment : Machine κ σ} {i j : Instance κ}
  {e : EnvironmentId} {b : ImportBinding} {w : World κ σ} {name : String}

/-- The moment at which an import is observed is one of the call. -/
theorem Enters.comes (enters : site.Enters setup n (m :: rest) moment) (orderly : Orderly setup site)
    (descends : site.world.Descends setup.interpreter site.registry.Home)
    (known : site.registry.get? m = some i) (home : i.environment = some e)
    (comes : World.ComesTo e b moment.world w) :
    site.world.store.Grows w.store ∧
      (∃ environment, w.store.environment? e = some environment ∧ b ∈ environment.imports.values) ∧
      ∃ past, moment.world.past.events <:+ w.store :: past ∧
        w.store :: past <:+ (site.make setup (.evaluate n)).world.past.events := by
  obtain ⟨before, after⟩ := enters.runs orderly known home
  have lives : site.registry.Home e i.record := ⟨m, i, known, home, rfl⟩
  obtain ⟨here, onward, present⟩ := World.ComesTo.goes setup.interpreter lives comes
  obtain ⟨past, events, _⟩ := here.descends (before.descends descends)
  have since := onward.since.trans after.since
  rw [events] at since
  exact ⟨before.grows.trans here.grows, present, past, events ▸ here.since, since⟩

/-- What is completed when a module is run has gone through all of its evaluation. -/
theorem Enters.accounted (enters : site.Enters setup n (m :: rest) moment)
    (durable : site.Durable) : moment.Accounted := by
  obtain ⟨l, _, enters⟩ := enters
  exact Machine.Enters.accounted enters durable.accounted

/-- Where a binary module is completed when another is run, its exports give their values from
then on. -/
theorem Enters.completed_reads (enters : site.Enters setup n (m :: rest) moment)
    (orderly : Orderly setup site) (durable : site.Durable)
    (durable' : (site.make setup (.evaluate n)).Durable) {past : List (Store κ)} {s : Store κ}
    (since : moment.world.past.events <:+ s :: past)
    (onward : s :: past <:+ (site.make setup (.evaluate n)).world.past.events)
    (known : site.registry.get? d = some j) (home : j.environment = some e) (binary : j.kind = .binary)
    (completed : moment.registry.progressOf? d = some .completed) {environment : Environment}
    {slot : SlotId} (present : s.environment? e = some environment)
    (given : environment.exports.get? name = some slot) : ∃ value, s.readSlot slot = .ok value := by
  obtain ⟨_, _, arrives, _⟩ := enters.arrives orderly
  obtain ⟨_, descends⟩ := arrives.descends
  obtain ⟨_, done, here, _⟩ := descends.under
  obtain ⟨now, there, ended⟩ := Registry.progressOf?_eq_some_iff.mp completed
  obtain ⟨progress, change⟩ := here.sameModules.modules d
  rw [known] at change
  cases there.symm.trans change
  obtain ⟨_, s₀, s₁, later, earlier, publishes, rfl, events⟩ :=
    ((enters.accounted durable).finished d _ e there ended home).published binary
  obtain ⟨j', known', record, _, home'⟩ :=
    (orderly.retains_evaluate n).1 d j (Registry.linked_of_home known home) known
  have fixes : s₁.Fixes s :=
    durable'.ordered.onward Store.respected_fixes onward (since.subset (by simp [events]))
  have binary' : j'.kind = .binary := by rwa [Instance.kind, record]
  obtain ⟨value, read, _⟩ := durable'.gives_of_publishes (orderly.make _) known' (home'.trans home)
    binary' (record ▸ publishes) (onward.subset (since.subset (by simp [events]))) fixes
    (onward.subset List.mem_cons_self) present given
  exact ⟨value, read⟩

/-- What an export of a binary module on which the module that is run depends does not give is not
there yet. The exporter waits for the module that is run then, and a script module is between
the two. -/
theorem Enters.fails_waiting (enters : site.Enters setup n (m :: rest) moment)
    (orderly : Orderly setup site) (durable : site.Durable)
    (durable' : (site.make setup (.evaluate n)).Durable)
    (descends : site.world.Descends setup.interpreter site.registry.Home)
    (untangled : site.registry.Untangled) (depends : site.registry.DependsOn m d)
    (known : site.registry.get? d = some j) (binary : j.kind = .binary) {slot : SlotId}
    (owned : site.registry.exportSlot? site.world.store d name = some slot) {past : List (Store κ)}
    {s : Store κ} (grows : site.world.store.Grows s) (since : moment.world.past.events <:+ s :: past)
    (onward : s :: past <:+ (site.make setup (.evaluate n)).world.past.events) {reason : EvalError}
    (failed : s.readSlot slot = .error reason) :
    (∃ j name, site.registry.get? d = some j ∧ reason = .uninitialized j.identity name) ∧
      moment.registry.progressOf? d = some .inProgress ∧ ∃ circle, site.registry.Circle m d circle ∧
        ∃ x ∈ circle, ∃ i, site.registry.get? x = some i ∧ i.kind = .script := by
  obtain ⟨_, e, before, known', home, there, given⟩ := Registry.exportSlot?_eq_some_iff.mp owned
  cases known.symm.trans known'
  obtain ⟨_, there', identity⟩ := orderly.housed.present d j e known home
  cases there.symm.trans there'
  obtain ⟨entities, kept⟩ := grows.environments e before there
  obtain ⟨l, _, arrives, _⟩ := enters.arrives orderly
  have running : moment.registry.progressOf? d = some .inProgress := by
    refine (arrives.ready m rfl d depends).resolve_right fun completed => ?_
    obtain ⟨value, read⟩ := enters.completed_reads orderly durable durable' since onward known home
      binary completed kept given
    cases failed.symm.trans read
  obtain ⟨circle, closed⟩ := arrives.circle orderly.settled rfl depends running
  refine ⟨⟨j, ?_⟩, running, circle, closed, closed.script untangled⟩
  obtain ⟨j', later, record, _, home'⟩ :=
    (orderly.retains_evaluate n).1 d j (Registry.linked_of_home known home) known
  have binary' : j'.kind = .binary := by rwa [Instance.kind, record]
  rcases (orderly.make (.evaluate n)).export_reads (orderly.descends_make descends _) later
    (home'.trans home) binary' (onward.subset List.mem_cons_self) kept given with
    ⟨value, read⟩ | ⟨label, read⟩
  · cases failed.symm.trans read
  · cases failed.symm.trans read
    exact ⟨label, known, by rw [identity]⟩

/-- Whenever a binary module comes to an import that is bound to an export of the binary module
to which its specifier resolves, it is safe to read it unless the two wait for each other,
with a script module between them. -/
theorem direct_imports_safe (setup : Setup κ σ ℓ) (memo : σ) (source : ℓ)
    {calls : List (Call κ σ ℓ)}
    (returns : Returns setup (start memo source) (calls ++ [.evaluate n]))
    (history : site = (start memo source).run setup calls)
    (enters : site.Enters setup n (m :: rest) moment) (known : site.registry.get? m = some i)
    (home : i.environment = some e) (binary : i.kind = .binary)
    (comes : World.ComesTo e b moment.world w) (depends : i.dependency? b.specifier = some d)
    (owner : site.registry.get? d = some j) (binary' : j.kind = .binary)
    (owned : site.registry.exportSlot? site.world.store d name = some b.target) :
    site.Finds moment.registry w.store m d e b := by
  have orderly : Orderly setup site := history ▸ Orderly.of_run setup memo source calls
  have durable : site.Durable := history ▸ Durable.of_returns returns.earlier
  have descends : site.world.Descends setup.interpreter site.registry.Home :=
    history ▸ descends_of_run setup memo source calls
  have wired : Links.Wired ⟨site.registry, site.world.store⟩ :=
    history ▸ wired_of_run setup memo source calls
  have untangled : site.registry.Untangled := history ▸ untangled_of_run setup memo source calls
  -- After the call, this moment is one of the past.
  obtain ⟨retains, _⟩ := orderly.retains_evaluate n
  obtain ⟨grows, ⟨environment, present, member⟩, past, since, onward⟩ :=
    enters.comes orderly descends known home comes
  have later : Orderly setup (site.make setup (.evaluate n)) := orderly.make (.evaluate n)
  have durable' : (site.make setup (.evaluate n)).Durable := by
    have whole := Durable.of_returns returns
    rw [run, List.foldl_append] at whole
    rw [history]
    exact whole
  have told : w.store ∈ (site.make setup (.evaluate n)).world.past.events :=
    onward.subset List.mem_cons_self
  obtain ⟨i', known', record, _, home'⟩ := retains m i (Registry.linked_of_home known home) known
  obtain ⟨before, there, _⟩ := orderly.housed.present m i e known home
  obtain ⟨entities, kept⟩ := grows.environments e before there
  cases present.symm.trans kept
  have live := orderly.direct_live wired (descends.lineage.reserved _ orderly.present)
    ⟨known, home, there⟩ member binary owner binary' owned
  have sound := (later.past w.store told).1
  have houses := sound.houses e i'.record _ ⟨m, i', known', home'.trans home, rfl⟩ present
  rw [record] at houses
  have fits := Record.wellFormed_of_validate (orderly.stocked.checked m i known)
  have fails := fun reason (failed : w.store.readSlot b.target = .error reason) =>
    enters.fails_waiting orderly durable durable' descends untangled
      (Registry.dependsOn_of_dependency? known depends) owner binary' owned grows since onward failed
  refine ⟨⟨i, known, ?_⟩, fun there known => ?_, fun value read => ?_, fails, fun other => ?_⟩
  · obtain ⟨entry, held, rfl⟩ := List.mem_map.mp member
    obtain ⟨decl, declared, _, bound⟩ :=
      exists_of_forall₂ (durable.tidy.declares m i e before known home there) entry held
    exact ⟨decl, declared, bound⟩
  · cases present.symm.trans known
    unfold Store.observeImport
    rw [live, houses.kind.trans binary]
    cases w.store.readSlot b.target <;> rfl
  · exact (houses.imports b member).conforms_target sound fits binary live read
  · cases read : w.store.readSlot b.target with
    | ok value => exact ⟨value, rfl⟩
    | error reason =>
      obtain ⟨_, running, circle, closed, _⟩ := fails reason read
      rcases other with idle | apart
      · exact absurd running idle
      · exact absurd (closed.componentOf?_eq orderly.linkage).symm apart

end Moment
end Site

namespace Sample

/-- The reader before it is evaluated. -/
private def reading : Instance Unit :=
  ⟨"reader", reader, some [("counter", ⟨1⟩)], some ⟨0⟩, some ⟨1⟩, .notStarted⟩

/-- The reader is begun, and what it depends on is visited. -/
private def visited : Option (Except EvalError Unit) × Machine Unit Unit :=
  reading.targets.forM (Machine.visit setup.interpreter (prepared.engine.traversals + 1)
    prepared.registry.size) ⟨(prepared.registry.setComponent ⟨1⟩
      ⟨[⟨0⟩], .held (prepared.engine.traversals + 1)⟩).setProgress ⟨0⟩ .inProgress, prepared.world⟩

private theorem enters_reader : Site.Enters setup prepared 0 [⟨0⟩] visited.2 := by
  have entry : prepared.linked.map (·.graph.entry) = [⟨0⟩] := by decide +kernel
  have known : prepared.registry.get? ⟨0⟩ = some reading := by decide +kernel
  have held : prepared.registry.component? ⟨1⟩ = some ⟨[⟨0⟩], .free⟩ := by decide +kernel
  have succeeds : visited.1.map (·.isOk) = some true := by decide +kernel
  cases linked : prepared.linked with
  | nil => simp [linked] at entry
  | cons l rest =>
    obtain ⟨first, _⟩ : l.graph.entry = ⟨0⟩ ∧ rest = [] := by simpa [linked] using entry
    refine ⟨l, by rw [linked]; rfl, ?_⟩
    rw [first]
    exact .own (.root known rfl held rfl) (Run.apply_of_isOk succeeds)

end Sample

/-- When the reader comes to its import, the counter is completed, and the reader finds a global
of the type that it declares. -/
theorem Site.reader_finds : ∃ (moment : Machine Unit Unit) (w : World Unit Unit) (b : ImportBinding)
    (value : Value), Site.Enters Sample.setup Sample.prepared 0 [⟨0⟩] moment ∧
      World.ComesTo ⟨0⟩ b moment.world w ∧ b.name = "n" ∧ w.store.readSlot b.target = .ok value ∧
      w.store.Conforms (.numeric ⟨.i32, true⟩) value := by
  have imports : (Sample.visited.2.world.store.environment? ⟨0⟩).map (·.imports.values) =
      some [⟨"counter", "n", "seen", .global, .numeric ⟨.i32, true⟩, ⟨1⟩, .binary, ⟨1⟩, ⟨2⟩, .live⟩] := by
    decide +kernel
  obtain ⟨environment, present, only⟩ := Option.map_eq_some_iff.mp imports
  have read : World.reading (fun s => s.environment ⟨0⟩) Sample.visited.2.world =
      (some (.ok environment), Sample.visited.2.world.become Sample.visited.2.world.store) :=
    World.reading_apply (Store.environment_eq_ok.mpr present)
  have comes : World.ComesTo ⟨0⟩ _ Sample.visited.2.world _ := ⟨environment, [], [], _, read, only, rfl⟩
  have returns : Site.Returns Sample.setup (Site.start () ()) (Sample.preparation ++ [.evaluate 0]) :=
    ⟨fun _ => trivial, fun _ => trivial, fun never => absurd rfl never, trivial⟩
  have known : Sample.prepared.registry.get? ⟨0⟩ = some Sample.reading := by decide +kernel
  have owner : Sample.prepared.registry.get? ⟨1⟩ =
      some ⟨"counter", Sample.counter, some [], some ⟨1⟩, some ⟨0⟩, .notStarted⟩ := by decide +kernel
  have owned : Sample.prepared.registry.exportSlot? Sample.prepared.world.store ⟨1⟩ "n" =
      some ⟨1⟩ := by decide +kernel
  have finds := Site.direct_imports_safe Sample.setup () () returns rfl Sample.enters_reader known rfl
    rfl comes rfl owner rfl owned
  obtain ⟨value, held⟩ := finds.succeeds (.inr (by decide +kernel))
  exact ⟨_, _, _, value, Sample.enters_reader, comes, rfl, held, finds.conforms value held⟩

end MixedModules
