import MixedModules.Proofs.History.Identity
import MixedModules.Proofs.History.Steps

/-! The life of a slot.

A slot is empty when it is made, unless it is that of a declared function. It may be closed,
it may become live and then changes only from one value to another, or it captures one value
for good. Which of these can happen to it depends on what it is for, whatever order modules
are linked, evaluated and called in. -/
namespace MixedModules

variable {κ σ ℓ : Type}

/-- What a slot holds may become something else in one step. -/
inductive SlotContent.Becomes : SlotContent → SlotContent → Prop
  | same (content : SlotContent) : Becomes content content
  | closed : Becomes .uninitialized .deadZone
  | produced {before : SlotContent} (uncaptured : ∀ old, before ≠ .snapshot old) (value : Value) :
      Becomes before (.live value)
  | captured (value : Value) : Becomes .uninitialized (.snapshot value)

/-- A slot is one of a module: that of an own binding, of a captured import or of an export. -/
def Environment.Has (environment : Environment) (i : SlotId) : Prop :=
  i ∈ environment.locals.values ∨ (∃ b ∈ environment.imports.values, b.own = i) ∨
    ∃ name, environment.exports.get? name = some i

/-- What a slot holds when its module is linked: a declared function, or nothing. -/
inductive Store.Commits (s : Store κ) (e : EnvironmentId) (record : Record κ)
    (environment : Environment) (i : SlotId) : SlotContent → Prop
  | hoisted {decl : ExportDecl κ} {code : κ} {f : FunctionId} (declared : decl ∈ record.exports)
      (source : decl.source = .declaration code) (own : environment.locals.get? decl.name = some i)
      (function : s.function f = .ok ⟨decl.name, .script code e⟩) :
      Commits s e record environment i (.live (.function f))
  | empty (other : ∀ decl ∈ record.exports, ∀ code, decl.source = .declaration code →
      environment.locals.get? decl.name ≠ some i) : Commits s e record environment i .uninitialized

namespace Site

/-- How slots live from the moment that they are made. -/
structure Lifecycle (setup : Setup κ σ ℓ) (site : Site κ σ ℓ) : Prop where
  /-- What is captured or live can be read, and nothing else. -/
  reads : ∀ s ∈ site.world.past.events, ∀ i slot, s.slot? i = some slot → ∀ value,
    s.readSlot i = .ok value ↔ slot.content = .snapshot value ∨ slot.content = .live value
  moves : ∀ s s' past, s' :: s :: past <:+ site.world.past.events → ∀ i slot,
    s.slot? i = some slot → ∃ content, s'.slot? i = some { slot with content } ∧
      slot.content.Becomes content
  exports : ∀ s ∈ site.world.past.events, ∀ e environment, s.environment? e = some environment →
    ∀ name i slot, environment.exports.get? name = some i → s.slot? i = some slot →
      ∀ value, slot.content ≠ .snapshot value
  imports : ∀ s ∈ site.world.past.events, ∀ e environment, s.environment? e = some environment →
    ∀ b ∈ environment.imports.values, ∀ slot, s.slot? b.own = some slot →
      slot.content ≠ .deadZone ∧ ∀ value, slot.content ≠ .live value
  binary : ∀ s ∈ site.world.past.events, ∀ e environment, s.environment? e = some environment →
    environment.kind = .binary → ∀ i slot, environment.Has i → s.slot? i = some slot →
      slot.content ≠ .deadZone
  /-- From the moment on at which the body of a script module begins, which the past of the
  world ends with then, all own bindings of the module were touched. -/
  begun : ∀ n x rest moment i e, site.Enters setup n (x :: rest) moment →
    site.registry.get? x = some i → i.environment = some e → i.kind = .script →
      ∀ w, World.prepare e moment.world = (some (.ok ()), w) →
        w.past.events <:+ (site.make setup (.evaluate n)).world.past.events ∧
        ∀ more s past, w.past.events <:+ s :: past →
          s :: past <:+ ((site.make setup (.evaluate n)).run setup more).world.past.events →
            ∀ environment, s.environment? e = some environment → ∀ j ∈ environment.locals.values,
              ∀ slot, s.slot? j = some slot → slot.content ≠ .uninitialized
  /-- When a graph is linked, the modules that join have their declared functions. -/
  linked : ∀ (n : Nat) g l, site.graphs[n]? = some g →
    Links.link ⟨site.registry, site.world.store⟩ g = .ok l →
      ∀ m ∈ Links.pending ⟨site.registry, site.world.store⟩ g, ∀ i e environment,
        l.Lives m i e environment → ∀ j slot, environment.Has j → l.store.slot? j = some slot →
          l.store.Commits e i.record environment j slot.content

end Site

namespace Store

variable {s s' : Store κ} {e : EnvironmentId} {record : Record κ} {environment : Environment}
  {i : SlotId} {slot : Slot}

/-- A slot is read if it was captured or is live. -/
theorem readSlot_eq_ok_iff {value : Value} (known : s.slot? i = some slot) :
    s.readSlot i = .ok value ↔ slot.content = .snapshot value ∨ slot.content = .live value := by
  unfold readSlot Slot.read Slot.value? SlotContent.value?
  rw [known]
  rcases slot with ⟨owner, name, kind, type, content⟩
  cases content <;> simp

/-- An export of a script module is one of its own bindings, and one of a binary module is
published. -/
theorem Houses.export_role {name : String} (houses : s.Houses record environment)
    (stands : record.Stands environment) (given : environment.exports.get? name = some i) :
    i ∈ environment.locals.values ∨ i ∈ environment.published := by
  cases kind : environment.kind with
  | script =>
    obtain ⟨decl, declared, rfl, _⟩ := houses.exports name i given
    exact .inl (mem_values_of_get? (stands (houses.kind.symm.trans kind) decl declared i given))
  | binary =>
    right
    rw [Environment.published_of_binary kind]
    exact mem_values_of_get? given

theorem Houses.has (houses : s.Houses record environment) (stands : record.Stands environment)
    (has : environment.Has i) : i ∈ environment.slots := by
  rcases has with own | ⟨b, member, rfl⟩ | ⟨name, given⟩
  · exact List.mem_append_left _ own
  · exact List.mem_append_right _ (List.mem_append_left _ (List.mem_map.mpr ⟨b, member, rfl⟩))
  · rcases houses.export_role stands given with own | published
    · exact List.mem_append_left _ own
    · exact List.mem_append_right _ (List.mem_append_right _ published)

/-- Only own bindings of script modules are closed. -/
theorem Fit.not_closed (fit : s.Fit i slot.content) (reserved : s.Reserved)
    (present : s.environment? e = some environment) (binary : environment.kind = .binary)
    (member : i ∈ environment.slots) : slot.content ≠ .deadZone := by
  generalize slot.content = content at fit
  rintro rfl
  cases fit with
  | closed present' script own =>
    rcases List.mem_append.mp member with mine | mine
    · obtain rfl := reserved.parted _ _ _ _ i present present' mine own
      cases present.symm.trans present'
      cases script.symm.trans binary
    · exact reserved.kept e environment i present mine ⟨_, _, present', own⟩

end Store

namespace Site

variable {setup : Setup κ σ ℓ} {site : Site κ σ ℓ} {s s' : Store κ} {e : EnvironmentId}
  {environment : Environment} {i : SlotId} {slot : Slot}

/-- An environment is that of a module at every moment. -/
theorem Orderly.housed_at (orderly : Orderly setup site)
    (descends : site.world.Descends setup.interpreter site.registry.Home)
    (wired : Links.Wired ⟨site.registry, site.world.store⟩) (told : s ∈ site.world.past.events)
    (present : s.environment? e = some environment) :
    ∃ record, s.Houses record environment ∧ record.Stands environment := by
  obtain ⟨_, m, i, known, home, rfl⟩ := descends.lineage.homed s told e environment present
  obtain ⟨sound, grows⟩ := orderly.past s told
  obtain ⟨entities, now⟩ := grows.environments e environment present
  have stands := wired.stands m i e _ ⟨known, home, now⟩
  exact ⟨i.record, sound.houses e i.record environment ⟨m, i, known, home, rfl⟩ present, stands⟩

/-- One step of a slot. -/
theorem Durable.becomes (orderly : Orderly setup site) (durable : site.Durable)
    (descends : site.world.Descends setup.interpreter site.registry.Home) {past : List (Store κ)}
    (onward : s' :: s :: past <:+ site.world.past.events) (known : s.slot? i = some slot) :
    ∃ content, s'.slot? i = some { slot with content } ∧ slot.content.Becomes content := by
  have told : s ∈ site.world.past.events := onward.subset (by simp)
  have told' : s' ∈ site.world.past.events := onward.subset (by simp)
  have reserved := descends.lineage.reserved s told
  have fitting := orderly.fitting descends told
  cases descends.lineage.suffix onward (by simp) with
  | step _ moves =>
    obtain ⟨content, known', writes⟩ := moves.writes known
    refine ⟨content, known', ?_⟩
    obtain ⟨owner, name, kind, type, before⟩ := slot
    cases writes with
    | kept => exact .same _
    | closed home script present own => exact .closed
    | assigned _ ran present own =>
      have own := Store.mem_values_of_get? own
      have fit := fitting _ _ present i (List.mem_append_left _ own) _ known
      exact .produced (fit.of_assignable reserved ⟨_, _, present, own⟩) _
    | @captured e environment b value _ present member own =>
      subst own
      have mine : b.own ∈ environment.reserved :=
        List.mem_append_left _ (List.mem_map.mpr ⟨b, member, rfl⟩)
      have fit := fitting _ _ present b.own (List.mem_append_right _ mine) _ known
      rcases fit.of_own reserved present member with rfl | ⟨before, rfl⟩
      · exact .captured value
      -- What was captured before is what is captured now.
      · have fixes := durable.ordered.onward Store.respected_fixes onward
          (List.mem_cons_of_mem s' List.mem_cons_self)
        have read : s.readSlot b.own = .ok before := (Store.readSlot_eq_ok_iff known).mpr (.inl rfl)
        have kept := fixes.readSlot (reserved.not_assignable_own present member) read
        have now : s'.readSlot b.own = .ok value := (Store.readSlot_eq_ok_iff known').mpr (.inl rfl)
        cases kept.symm.trans now
        exact .same _
    | @published e record environment value _ home present member instantiated =>
      have binary : environment.kind = .binary :=
        (orderly.kinds told home present).trans instantiated.binary
      have published : i ∈ environment.published := by
        rwa [Environment.published_of_binary binary]
      have fit := fitting _ _ present i
        (List.mem_append_right _ (List.mem_append_right _ published)) _ known
      rcases fit.of_published reserved present published with rfl | ⟨_, rfl⟩ <;>
      exact .produced (fun _ same => by cases same) value

/-- When a module is linked, its own bindings hold what they begin with and its other slots
nothing. -/
theorem Durable.commits (orderly : Orderly setup site) (durable : site.Durable) {n : Nat}
    {g : ModuleGraph} {l : Links κ} {m : ModuleId} {i : Instance κ} {j : SlotId}
    (named : site.graphs[n]? = some g)
    (ran : Links.link ⟨site.registry, site.world.store⟩ g = .ok l)
    (pending : m ∈ Links.pending ⟨site.registry, site.world.store⟩ g)
    (lives : l.Lives m i e environment)
    (stands : i.record.Stands environment) (has : environment.Has j)
    (known : l.store.slot? j = some slot) :
    l.store.Commits e i.record environment j slot.content := by
  have faithful := orderly.graphs g (List.mem_of_getElem? named)
  have laid := Links.laid_of_link durable.tidy.reserved durable.tidy.housed orderly.stocked ran
  obtain ⟨housed, _⟩ := Links.housed_of_link durable.tidy.housed orderly.stocked ran
  have new := durable.tidy.new_of_pending orderly.stocked orderly.linkage faithful ran pending
    lives.known lives.home
  obtain ⟨x, i', lives', _, opens⟩ := Links.opened_of_link orderly.stocked ran e environment
    lives.present (Array.getElem?_eq_none_iff.mp new)
  obtain rfl := housed.apart m x i i' e lives.known lives'.known lives.home lives'.home
  cases lives.known.symm.trans lives'.known
  have houses := housed.sound.houses e i.record environment
    ⟨m, i, lives.known, lives.home, rfl⟩ lives.present
  rcases List.mem_append.mp (houses.has stands has) with own | other
  · obtain ⟨name, held⟩ := Scope.exists_get?_of_mem_values opens.distinct own
    obtain ⟨content, known', begins⟩ := opens.slots name j held
    cases known.symm.trans known'
    cases begins with
    | declared declared named source function =>
      subst named
      exact .hoisted declared source held function
    | untouched none =>
      refine .empty fun decl declared code source held' => ?_
      obtain ⟨_, known'', _⟩ := opens.slots decl.name j held'
      cases known.symm.trans known''
      exact none decl declared rfl code source
  · rw [(laid.fresh e environment lives.present new).2 j other slot known]
    refine .empty fun decl _ _ _ held => ?_
    exact laid.reserved.kept e environment j lives.present other
      ⟨e, environment, lives.present, Store.mem_values_of_get? held⟩

/-- When the body of a script module begins, all its own bindings were touched, and they
stay so. -/
theorem Enters.touched {memo : σ} {source : ℓ} {calls : List (Call κ σ ℓ)} {n : Nat}
    {x : ModuleId} {rest : List ModuleId} {moment : Machine κ σ} {i : Instance κ}
    {w : World κ σ} (history : site = (start memo source).run setup calls)
    (enters : site.Enters setup n (x :: rest) moment) (known : site.registry.get? x = some i)
    (home : i.environment = some e) (script : i.kind = .script)
    (ran : World.prepare e moment.world = (some (.ok ()), w)) (more : List (Call κ σ ℓ)) :
    w.past.events <:+ (site.make setup (.evaluate n)).world.past.events ∧
      ∀ s past, w.past.events <:+ s :: past →
        s :: past <:+ ((site.make setup (.evaluate n)).run setup more).world.past.events →
          ∀ environment, s.environment? e = some environment → ∀ j ∈ environment.locals.values,
            ∀ slot, s.slot? j = some slot → slot.content ≠ .uninitialized := by
  have orderly : Orderly setup site := history ▸ Orderly.of_run setup memo source calls
  have descends : site.world.Descends setup.interpreter site.registry.Home :=
    history ▸ descends_of_run setup memo source calls
  obtain ⟨before, after⟩ := enters.begins orderly known home script ran
  refine ⟨after.since, fun s past since onward environment present j own slot there => ?_⟩
  have whole := descends_of_run setup memo source (calls ++ .evaluate n :: more)
  rw [show (start memo source).run setup (calls ++ .evaluate n :: more) =
    (site.make setup (.evaluate n)).run setup more by rw [history]; simp only [run, List.foldl_append,
      List.foldl_cons]] at whole
  have lineage := whole.lineage.suffix onward (by simp)
  -- The environment of the module is the one that it had when its bindings were closed.
  obtain ⟨ordered, environment', present', closed⟩ :=
    World.closed_of_prepare (before.descends descends).ordered ran
  have told : w.store ∈ s :: past := since.subset (List.mem_of_mem_head? ordered.latest)
  have same : environment'.locals = environment.locals := by
    have grows : w.store.Grows s := lineage.grows.rel_head_of_rel_head_head told (.refl s)
    obtain ⟨entities, kept⟩ := grows.environments e environment' present'
    cases present.symm.trans kept
    rfl
  obtain ⟨_, s₀, s₁, later, earlier, ⟨⟨_, there₀, own₀⟩, rfl⟩, rfl, events⟩ := closed j (same ▸ own)
  have told₀ : s₀ ∈ s :: past := since.subset (by simp [events])
  have told₁ : s₀.modifySlot j Slot.enterDeadZone ∈ s :: past := since.subset (by simp [events])
  obtain ⟨old, known₀, _⟩ := (lineage.reserved s₀ told₀).untyped j ⟨e, _, there₀, own₀⟩
  have known₁ : (s₀.modifySlot j Slot.enterDeadZone).slot? j = some old.enterDeadZone := by
    rw [Store.slot?_modifySlot, if_pos rfl, known₀]
    rfl
  have touched : old.enterDeadZone.content ≠ .uninitialized := by
    rcases old with ⟨owner, name, kind, type, content⟩
    cases content <;> simp [Slot.enterDeadZone]
  rcases List.mem_cons.mp told₁ with rfl | earlier
  · cases there.symm.trans known₁
    exact touched
  · obtain ⟨slot', known', still⟩ :=
      (List.pairwise_cons.mp lineage.touches).1 _ earlier j _ known₁ touched
    cases there.symm.trans known'
    exact still

/-- Whatever happens to an engine, slots live as they should: they are filled in the ways that
are in place for them, and never emptied again. -/
theorem slots_live (setup : Setup κ σ ℓ) (memo : σ) (source : ℓ) {calls : List (Call κ σ ℓ)}
    (returns : Returns setup (start memo source) calls) {site : Site κ σ ℓ}
    (history : site = (start memo source).run setup calls) : site.Lifecycle setup := by
  have orderly : Orderly setup site := history ▸ Orderly.of_run setup memo source calls
  have durable : site.Durable := history ▸ Durable.of_returns returns
  have descends : site.world.Descends setup.interpreter site.registry.Home :=
    history ▸ descends_of_run setup memo source calls
  have wired : Links.Wired ⟨site.registry, site.world.store⟩ :=
    history ▸ wired_of_run setup memo source calls
  have reserved := descends.lineage.reserved
  constructor
  case reads => exact fun s told i slot known value => Store.readSlot_eq_ok_iff known
  case moves => exact fun s s' past onward i slot known =>
    durable.becomes orderly descends onward known
  case exports =>
    intro s told e environment present name i slot given known
    obtain ⟨record, houses, stands⟩ := orderly.housed_at descends wired told present
    have fit := orderly.fitting descends told e environment present i
      (houses.has stands (.inr (.inr ⟨name, given⟩))) slot known
    rcases houses.export_role stands given with own | published
    · exact fit.of_assignable (reserved s told) ⟨e, environment, present, own⟩
    · rintro value held
      rcases fit.of_published (reserved s told) present published with vacant | ⟨_, live⟩
      · cases held.symm.trans vacant
      · cases held.symm.trans live
  case imports =>
    intro s told e environment present b member slot known
    have mine : b.own ∈ environment.reserved :=
      List.mem_append_left _ (List.mem_map.mpr ⟨b, member, rfl⟩)
    have fit := orderly.fitting descends told e environment present b.own
      (List.mem_append_right _ mine) slot known
    rcases fit.of_own (reserved s told) present member with vacant | ⟨_, held⟩
    · simp [vacant]
    · simp [held]
  case binary =>
    intro s told e environment present kind i slot has known
    obtain ⟨record, houses, stands⟩ := orderly.housed_at descends wired told present
    have member := houses.has stands has
    exact (orderly.fitting descends told e environment present i member slot known).not_closed
      (reserved s told) present kind member
  case begun =>
    intro n x rest moment i e enters known home script w ran
    have touched := enters.touched history known home script ran
    exact ⟨(touched []).1, fun more => (touched more).2⟩
  case linked =>
    intro n g l named ran m pending i e environment lives j slot has known
    exact durable.commits orderly named ran pending lives
      (Links.stands_of_link wired orderly.housed orderly.stocked ran m i e environment lives) has
      known

end Site

/-- When the taker was evaluated and the binding that it took was assigned once more, the slot
of the binding is live with the new value, and that of the taker holds what it captured. -/
theorem Site.taker_slots_live : ∃ site : Site Unit Unit Unit,
    site = (Site.start () ()).run Sample.taking Sample.changed ∧ site.Lifecycle Sample.taking ∧
      site.world.store.slots.toList.map (·.content) = [.live (.bigint 8), .snapshot (.global ⟨0⟩)] :=
  ⟨_, rfl, Site.slots_live Sample.taking () () Sample.returns_changed rfl, by decide +kernel⟩

end MixedModules
