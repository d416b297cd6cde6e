import MixedModules.Proofs.Evaluation.Observing
import MixedModules.Proofs.History.Honesty
import MixedModules.Proofs.History.Lifecycle
import MixedModules.Proofs.History.Namespaces
import MixedModules.Proofs.History.Snapshot

/-! The import step of a linked module.

Whichever module is about to run, its captured imports have slots of their own that no module
exports, so observing one of them takes nothing from another. The order in which they are
observed makes no difference, and no other module can tell that they were. -/
namespace MixedModules

variable {κ σ ℓ : Type}

namespace Site

variable {setup : Setup κ σ ℓ} {site : Site κ σ ℓ} {m : ModuleId} {i : Instance κ}
  {e : EnvironmentId} {environment : Environment} {s : Store κ}

/-- The slot of a captured import is exported by no module. -/
theorem Orderly.own_ne_export (orderly : Orderly setup site)
    (descends : site.world.Descends setup.interpreter site.registry.Home)
    (wired : Links.Wired ⟨site.registry, site.world.store⟩) (told : s ∈ site.world.past.events)
    (present : s.environment? e = some environment) {b : ImportBinding}
    (member : b ∈ environment.imports.values) {e' : EnvironmentId} {environment' : Environment}
    (present' : s.environment? e' = some environment') {name : String} {slot : SlotId}
    (given : environment'.exports.get? name = some slot) : b.own ≠ slot := by
  rintro rfl
  have reserved := descends.lineage.reserved s told
  obtain ⟨record, houses, stands⟩ := orderly.housed_at descends wired told present'
  rcases houses.export_role stands given with own | published
  · exact reserved.not_assignable_own present member ⟨e', environment', present', own⟩
  · exact reserved.not_published_own present member present' published

/-- The imports of a module do not get in each other's way. -/
theorem Orderly.separate (orderly : Orderly setup site)
    (descends : site.world.Descends setup.interpreter site.registry.Home)
    (wired : Links.Wired ⟨site.registry, site.world.store⟩)
    (supplies : Links.Supplies ⟨site.registry, site.world.store⟩)
    (known : site.registry.get? m = some i) (home : i.environment = some e)
    (present : site.world.store.environment? e = some environment) :
    Store.Separate environment.imports.values := by
  have lives : Links.Lives ⟨site.registry, site.world.store⟩ m i e environment :=
    ⟨known, home, present⟩
  have reserved := descends.lineage.reserved _ orderly.present
  have fits := Record.wellFormed_of_validate (orderly.stocked.checked m i known)
  refine ⟨(List.nodup_append.mp (reserved.once e environment present)).1, ?_,
    fun b member b' member' => ?_⟩
  · rw [(supplies m i e environment lives).names.1]
    exact fits.importsDistinct
  · obtain ⟨_, name, _, _, gives⟩ := (wired.sources m i e environment lives b member).origin
    obtain ⟨_, e', environment', _, _, present', given⟩ :=
      Registry.exportSlot?_eq_some_iff.mp gives.2
    exact orderly.own_ne_export descends wired orderly.present present member' present' given

/-- What the import step of the module of `e` comes to in the world `w`. -/
structure Unordered (e : EnvironmentId) (environment : Environment) (w : World κ σ) : Prop where
  /-- The engine takes the imports in one of their orders, that in which they are bound. -/
  engine : World.observeImports e environment w =
    World.observeInOrder e environment environment.imports.values w
  /-- It is the same whichever order the imports are taken in. -/
  orders : ∀ bs bs', bs.Perm environment.imports.values → bs'.Perm environment.imports.values →
    World.OrderFree e environment bs bs' w
  /-- It changes neither a slot of another module, nor anything else that it has. -/
  others : ∀ bs result w', bs.Perm environment.imports.values →
    World.observeInOrder e environment bs w = (some result, w') → ∀ e' environment', e' ≠ e →
      w.store.environment? e' = some environment' →
        w'.store.environment? e' = some environment' ∧
          ∀ i, environment'.Has i → w'.store.slot? i = w.store.slot? i

/-- In every honest history, at any moment, a linked module may observe its imports in any order,
of which the engine takes one: the step fails in all orders or in none, and captures and installs
the same values, but for the places of what is made for them. -/
theorem imports_unordered (setup : Setup κ σ ℓ) (source : ℓ) {memo : σ} {calls : List (Call κ σ ℓ)}
    {carries : σ → List Value} (honest : Honest setup carries memo calls)
    (history : site = (start memo source).run setup calls) (known : site.registry.get? m = some i)
    (home : i.environment = some e) {w : World κ σ} (told : w.store ∈ site.world.past.events)
    (present : w.store.environment? e = some environment) : Unordered e environment w := by
  have orderly : Orderly setup site := history ▸ Orderly.of_run setup memo source calls
  have descends : site.world.Descends setup.interpreter site.registry.Home :=
    history ▸ descends_of_run setup memo source calls
  have wired : Links.Wired ⟨site.registry, site.world.store⟩ :=
    history ▸ wired_of_run setup memo source calls
  have supplies : Links.Supplies ⟨site.registry, site.world.store⟩ :=
    history ▸ supplies_of_run setup memo source calls
  have genuine : site.world.Genuine carries := history ▸ genuine_of_run honest source
  obtain ⟨entities, kept⟩ := (orderly.past w.store told).2.environments e environment present
  have separate := orderly.separate descends wired supplies known home kept
  refine ⟨congrFun (World.observeImports_eq e environment) w, fun bs bs' order order' => ?_,
    fun bs result w' order ran e' environment' other there => ?_⟩
  · exact World.orderFree present (genuine.past w.store told) (separate.perm order)
      (order'.trans order.symm)
  · have free := World.orderFree present (genuine.past w.store told) (separate.perm order) (.refl bs)
    have confined := free.confined result w' ran
    refine ⟨(confined.others e' other).trans there, fun j has => ?_⟩
    refine confined.slots j fun b member _ => ?_
    rintro rfl
    have member := order.subset member
    have reserved := descends.lineage.reserved w.store told
    obtain ⟨record, houses, stands⟩ := orderly.housed_at descends wired told there
    rcases List.mem_append.mp (houses.has stands has) with own | mine
    · exact reserved.not_assignable_own present member ⟨e', environment', there, own⟩
    · exact other (reserved.own e' e environment' environment b.own there present mine
        (List.mem_append_left _ (List.mem_map.mpr ⟨b, member, rfl⟩)))

end Site

namespace Sample

/-- A binary module that takes one binding twice, as a global each time. -/
def twins : Record Unit where
  requested := ["notes"]
  imports := [⟨"notes", "x", "a", .global, .numeric ⟨.i64, false⟩⟩,
    ⟨"notes", "x", "b", .global, .numeric ⟨.i64, false⟩⟩]
  exports := []
  stars := []
  body := .binary ⟨[], [], [], [], [], [], none⟩

/-- The twins beside the module whose binding they take. -/
def twinning : Setup Unit Unit Unit :=
  { taking with
    loader := fun identity source =>
      (.record (if identity = "notes" then notes else twins), source) }

/-- The binding is assigned before the twins are linked. -/
def twinned : List (Call Unit Unit Unit) :=
  [.build "notes", .link 0, .evaluate 0, .build "twins", .link 0]

theorem honest_twinned : Honest twinning (fun _ => []) () twinned where
  embedder := {
    body := fun _ _ => ⟨fun v handed => List.mem_singleton.mp handed ▸ rfl, fun _ _ _ => nofun⟩
    script := fun _ _ _ _ same v given => by
      cases same
      exact .inl (List.mem_singleton.mp given ▸ rfl)
    binary := fun _ _ _ _ _ => nofun }
  memo := nofun
  calls call member := by
    simp only [twinned, List.mem_cons, List.not_mem_nil, or_false] at member
    rcases member with rfl | rfl | rfl | rfl | rfl <;> trivial

end Sample

/-- Each twin gets a global of its own, and which of the two comes first is all that depends on
the order. -/
theorem Site.twins_unordered : ∃ (site : Site Unit Unit Unit) (environment : Environment)
    (w₁ w₂ : World Unit Unit) (rename : Value → Value),
    site = (Site.start () ()).run Sample.twinning Sample.twinned ∧
      World.observeImports ⟨1⟩ environment site.world = (some (.ok ()), w₁) ∧
      World.observeInOrder ⟨1⟩ environment environment.imports.values site.world =
        (some (.ok ()), w₁) ∧
      World.observeInOrder ⟨1⟩ environment environment.imports.values.reverse site.world =
        (some (.ok ()), w₂) ∧
      site.world.store.Renames w₁.store w₂.store rename ∧
      (w₁.store.readEntity ⟨1⟩ "a").toOption = some (.global ⟨0⟩) ∧
      (w₂.store.readEntity ⟨1⟩ "a").toOption = some (.global ⟨1⟩) := by
  let site := (Site.start () ()).run Sample.twinning Sample.twinned
  let environment := (site.world.store.environment? ⟨1⟩).getD default
  have orderly : Site.Orderly Sample.twinning site := .of_run Sample.twinning () () Sample.twinned
  have registered : (site.registry.get? ⟨1⟩).map (·.environment) = some (some ⟨1⟩) := by
    decide +kernel
  obtain ⟨i, known, home⟩ := Option.map_eq_some_iff.mp registered
  have present : site.world.store.environment? ⟨1⟩ = some environment := by
    have there : (site.world.store.environment? ⟨1⟩).isSome := by decide +kernel
    obtain ⟨_, found⟩ := Option.isSome_iff_exists.mp there
    simp only [environment, found, Option.getD_some]
  have ran : World.observeInOrder ⟨1⟩ environment environment.imports.values site.world =
      (some (.ok ()), _) := Run.apply_of_isOk (by decide +kernel)
  have ran' : World.observeInOrder ⟨1⟩ environment environment.imports.values.reverse site.world =
      (some (.ok ()), _) := Run.apply_of_isOk (by decide +kernel)
  obtain ⟨engine, orders, _⟩ := Site.imports_unordered Sample.twinning () Sample.honest_twinned rfl
    known home orderly.present present
  obtain ⟨rename, renames⟩ :=
    (orders _ _ (.refl _) (List.reverse_perm _)).same _ _ ran ran'
  exact ⟨site, environment, _, _, rename, rfl, engine.trans ran, ran, ran', renames,
    by decide +kernel, by decide +kernel⟩

end MixedModules
