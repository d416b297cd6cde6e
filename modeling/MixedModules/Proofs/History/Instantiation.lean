import MixedModules.Proofs.History.Equipping

/-! The instantiation of modules that were checked and linked.

Whatever has happened before, a binary module that has observed its imports has an entity for
each, and its record has passed the check. Hence its instantiation provides all exports, or
halts for one of the reasons that no check of a record can rule out. -/
namespace MixedModules

variable {κ σ ℓ : Type}

namespace Site

variable {setup : Setup κ σ ℓ} {site : Site κ σ ℓ} {n : Nat} {m : ModuleId} {rest : List ModuleId}
  {moment : Machine κ σ} {i : Instance κ} {e : EnvironmentId} {environment : Environment}
  {body : BinaryBody κ} {w w₀ : World κ σ}

/-- Whenever a binary module has observed its imports, its instantiation comes next. It provides
all exports unless a size cannot be had, a segment does not fit or the start function fails. -/
theorem instantiation_provides (setup : Setup κ σ ℓ) (memo : σ) (source : ℓ)
    {calls : List (Call κ σ ℓ)} (history : site = (start memo source).run setup calls)
    (enters : site.Enters setup n (m :: rest) moment) (known : site.registry.get? m = some i)
    (home : i.environment = some e) (shape : i.record.body = .binary body)
    (read : World.reading (fun s => s.environment e) moment.world = (some (.ok environment), w₀))
    (observed : World.observeImports e environment w₀ = (some (.ok ()), w)) :
    World.runModule setup.interpreter e i.record moment.world =
        World.instantiate setup.interpreter.calls e environment.identity i.record body w ∧
      (World.instantiate setup.interpreter.calls e environment.identity i.record body).Ends w
        (fun _ w' => w'.store.Provides e i.record)
        (World.Halts setup.interpreter e environment.identity body w) := by
  have orderly : Orderly setup site := history ▸ Orderly.of_run setup memo source calls
  have descends : site.world.Descends setup.interpreter site.registry.Home :=
    history ▸ descends_of_run setup memo source calls
  have supplies : Links.Supplies ⟨site.registry, site.world.store⟩ :=
    history ▸ supplies_of_run setup memo source calls
  have fits := Record.wellFormed_of_validate (orderly.stocked.checked m i known)
  obtain ⟨homed, unique⟩ := orderly.home_evaluate (n := n) known home
  obtain ⟨ready, apart⟩ :=
    enters.imported orderly descends supplies known home shape read observed
  refine ⟨?_, World.ends_instantiate setup.interpreter homed unique fits shape ready apart⟩
  unfold World.runModule
  rw [Run.bind_apply, read]
  simp only [shape]
  rw [Run.bind_apply, observed]

end Site

namespace Sample

/-- A binary module with a global that begins as an imported one, with a table that has its
function, and with this function as its start function. -/
def ticker : Record Unit where
  requested := ["counter"]
  imports := [⟨"counter", "n", "seen", .global, .numeric ⟨.i32, true⟩⟩]
  exports := [⟨"again", .global, .numeric ⟨.i32, true⟩, .observed "seen"⟩,
    ⟨"ticks", .global, .numeric ⟨.i32, false⟩, .own "ticks"⟩,
    ⟨"hands", .table, .resource .table ⟨1, none⟩, .own "hands"⟩]
  stars := []
  body := .binary ⟨[⟨"ticks", ⟨.i32, false⟩, .imported "seen"⟩], [], [⟨"hands", ⟨1, none⟩⟩],
    [⟨"tick", ⟨[], []⟩, ()⟩], [], [⟨"hands", 0, ["tick"]⟩], some "tick"⟩

/-- The ticker is loaded in place of the reader. -/
def ticking : Setup Unit Unit Unit :=
  { setup with loader := fun identity source =>
      (.record (if identity = "counter" then counter else ticker), source) }

/-- The engine when the ticker is ready to be evaluated. -/
def wound : Site Unit Unit Unit := (Site.start () ()).run ticking preparation

private def idle : Instance Unit :=
  ⟨"reader", ticker, some [("counter", ⟨1⟩)], some ⟨0⟩, some ⟨1⟩, .notStarted⟩

/-- The ticker is begun, and what it depends on is visited. -/
private def wheel : Option (Except EvalError Unit) × Machine Unit Unit :=
  idle.targets.forM (Machine.visit ticking.interpreter (wound.engine.traversals + 1)
    wound.registry.size) ⟨(wound.registry.setComponent ⟨1⟩
      ⟨[⟨0⟩], .held (wound.engine.traversals + 1)⟩).setProgress ⟨0⟩ .inProgress, wound.world⟩

private theorem enters_ticker : Site.Enters ticking wound 0 [⟨0⟩] wheel.2 := by
  have entry : wound.linked.map (·.graph.entry) = [⟨0⟩] := by decide +kernel
  have known : wound.registry.get? ⟨0⟩ = some idle := by decide +kernel
  have held : wound.registry.component? ⟨1⟩ = some ⟨[⟨0⟩], .free⟩ := by decide +kernel
  have visited : wheel.1.map (·.isOk) = some true := by decide +kernel
  cases linked : wound.linked with
  | nil => simp [linked] at entry
  | cons l rest =>
    obtain ⟨first, _⟩ : l.graph.entry = ⟨0⟩ ∧ rest = [] := by simpa [linked] using entry
    refine ⟨l, by rw [linked]; rfl, ?_⟩
    rw [first]
    exact .own (.root known rfl held rfl) (Run.apply_of_isOk visited)

end Sample

/-- The start function of the ticker runs, and all exports of the ticker are provided. -/
theorem Site.ticker_provides : ∃ (moment : Machine Unit Unit) (environment : Environment)
    (w₀ w w' : World Unit Unit), Site.Enters Sample.ticking Sample.wound 0 [⟨0⟩] moment ∧
      World.reading (fun s => s.environment ⟨0⟩) moment.world = (some (.ok environment), w₀) ∧
      World.observeImports ⟨0⟩ environment w₀ = (some (.ok ()), w) ∧
      World.runModule Sample.ticking.interpreter ⟨0⟩ Sample.ticker moment.world =
        (some (.ok ()), w') ∧ w'.store.Provides ⟨0⟩ Sample.ticker := by
  have known : Sample.wound.registry.get? ⟨0⟩ = some Sample.idle := by decide +kernel
  have observes : (Sample.wheel.2.world.store.environment? ⟨0⟩).map (fun environment =>
      (World.observeImports ⟨0⟩ environment
        (Sample.wheel.2.world.become Sample.wheel.2.world.store)).1.map (·.isOk)) =
      some (some true) := by decide +kernel
  have succeeds : (World.runModule Sample.ticking.interpreter ⟨0⟩ Sample.ticker
      Sample.wheel.2.world).1.map (·.isOk) = some true := by decide +kernel
  obtain ⟨environment, present, observed⟩ := Option.map_eq_some_iff.mp observes
  have read : World.reading (fun s => s.environment ⟨0⟩) Sample.wheel.2.world =
      (some (.ok environment), Sample.wheel.2.world.become Sample.wheel.2.world.store) :=
    World.reading_apply (Store.environment_eq_ok.mpr present)
  have ready := Run.apply_of_isOk observed
  have ran := Run.apply_of_isOk succeeds
  obtain ⟨next, ends⟩ := Site.instantiation_provides Sample.ticking () () rfl Sample.enters_ticker
    known rfl rfl read ready
  exact ⟨_, environment, _, _, _, Sample.enters_ticker, read, ready, ran,
    ends.done () _ (next.symm.trans ran)⟩

end MixedModules
