import MixedModules.Proofs.History.Identity
import MixedModules.Proofs.History.Steps
import MixedModules.Proofs.Link.Namespaces

/-! A binding of a script module is the same wherever it is read.

Exports, re-exports, stars, namespaces and the imports of other script modules all refer to the
one slot of the binding. What they give is what code has assigned last, and before that the
function that is declared under the name, or nothing. -/
namespace MixedModules
open Relation

variable {κ σ ℓ : Type}

namespace Store

variable {interpreter : Interpreter κ σ} {homes : EnvironmentId → Record κ → Prop}
  {past : List (Store κ)} {s s' : Store κ} {e : EnvironmentId} {record : Record κ}
  {environment : Environment} {i : SlotId} {name : String}

/-- The value that code has assigned to a binding last, if it was assigned at all. -/
inductive Assigned (e : EnvironmentId) (name : String) : List (Store κ) → Option Value → Prop
  | never (s : Store κ) : Assigned e name [s] none
  | now {value : Value} {s s' : Store κ} {past : List (Store κ)}
      (assigns : Assigns e name value s s') : Assigned e name (s' :: s :: past) (some value)
  | before {last : Option Value} {s s' : Store κ} {past : List (Store κ)}
      (other : ∀ value, ¬ Assigns e name value s s') (before : Assigned e name (s :: past) last) :
      Assigned e name (s' :: s :: past) last

/-- What a binding gives that was never assigned: the function that is declared under its name,
or a reference to what is not there yet. -/
inductive Unassigned (s : Store κ) (e : EnvironmentId) (record : Record κ) (identity name : String) :
    Except EvalError Value → Prop
  | hoisted {decl : ExportDecl κ} {code : κ} {f : FunctionId} (declared : decl ∈ record.exports)
      (named : decl.name = name) (source : decl.source = .declaration code)
      (function : s.function f = .ok ⟨name, .script code e⟩) :
      Unassigned s e record identity name (.ok (.function f))
  | bare (none : ∀ decl ∈ record.exports, decl.name = name → ∀ code,
      decl.source ≠ .declaration code) :
      Unassigned s e record identity name (.error (.uninitialized identity name))

theorem Unassigned.kept {identity : String} {first : Except EvalError Value}
    (unassigned : s.Unassigned e record identity name first) (keeps : s.Keeps s') :
    s'.Unassigned e record identity name first := by
  cases unassigned with
  | hoisted declared named source function =>
    exact .hoisted declared named source (keeps.functions _ _ function)
  | bare none => exact .bare none

/-- What an assignment changes: the one slot, and nothing else. -/
structure Changes (s s' : Store κ) (i : SlotId) (value : Value) : Prop where
  here : ∀ slot, s.slot? i = some slot → s'.slot? i = some (slot.setLive value)
  slots : ∀ j, j ≠ i → s'.slot? j = s.slot? j
  environments : s'.environments = s.environments
  globals : s'.globals = s.globals
  memories : s'.memories = s.memories
  tables : s'.tables = s.tables
  functions : s'.functions = s.functions

theorem Assigns.changes {value : Value} (assigns : Assigns e name value s s')
    (present : s.environment? e = some environment) (own : environment.locals.get? name = some i) :
    s.Changes s' i value := by
  obtain ⟨there, j, present', own', rfl⟩ := assign_eq_ok assigns
  cases present.symm.trans present'
  cases own.symm.trans own'
  refine ⟨fun slot known => ?_, fun j other => ?_, rfl, rfl, rfl, rfl, rfl⟩
  · rw [slot?_modifySlot, if_pos rfl, known]
    rfl
  · rw [slot?_modifySlot, if_neg other.symm]

/-- The slots of own bindings bear the names of these, and the identity of their module. -/
def Labelled (s : Store κ) : Prop :=
  ∀ e environment, s.environment? e = some environment → ∀ name i,
    environment.locals.get? name = some i → ∃ slot, s.slot? i = some slot ∧
      slot.owner = environment.identity ∧ slot.name = name

theorem Lineage.labelled {events : List (Store κ)} (lineage : Lineage interpreter homes events) :
    ∀ s ∈ events, s.Labelled := by
  refine lineage.invariant (fun e environment known => by cases known) fun past s s' _ labelled moves
    e after present name i own => ?_
  cases before : s.environment? e with
  | some environment =>
    obtain ⟨entities, kept⟩ := moves.grows.environments e environment before
    cases present.symm.trans kept
    obtain ⟨slot, known, owner, named⟩ := labelled e environment before name i own
    obtain ⟨content, known'⟩ := moves.grows.slots i slot known
    exact ⟨_, known', owner, named⟩
  | none =>
    rcases moves.fills_or_laid with ⟨e', names, slots, fills⟩ | ⟨_, adopts⟩
    · obtain ⟨there, before', _⟩ := fills.environments e after present
      cases before.symm.trans before'
    · obtain ⟨record, _, _, opens⟩ := adopts e after present before
      obtain ⟨content, known, _⟩ := opens.slots name i own
      exact ⟨_, known, rfl, rfl⟩

/-- Two names of a module are not the same slot. -/
theorem Labelled.name_eq (labelled : s.Labelled) (present : s.environment? e = some environment)
    {other : String} (own : environment.locals.get? name = some i)
    (own' : environment.locals.get? other = some i) : other = name := by
  obtain ⟨slot, known, _, rfl⟩ := labelled e environment present name i own
  obtain ⟨slot', known', _, rfl⟩ := labelled e environment present other i own'
  cases known.symm.trans known'
  rfl

/-- A step that does not assign a binding leaves what it gives. -/
theorem Moves.readSlot_own (moves : Moves interpreter homes past s s') (reserved : s.Reserved)
    (labelled : s.Labelled) (kinds : ∀ e record environment, homes e record →
      s.environment? e = some environment → environment.kind = record.kind)
    (present : s.environment? e = some environment) (own : environment.locals.get? name = some i)
    (other : ∀ value, ¬ Assigns e name value s s') : s'.readSlot i = s.readSlot i := by
  have assignable : s.Assignable i := ⟨e, environment, present, mem_values_of_get? own⟩
  obtain ⟨slot, known, _⟩ := reserved.untyped i assignable
  obtain ⟨content, known', writes⟩ := moves.writes known
  unfold readSlot
  rw [known, known']
  rcases slot with ⟨owner, label, kind, type, before⟩
  cases writes with
  | kept => rfl
  | closed => rfl
  | @assigned e' environment' name' _ _ ran present' own' =>
    obtain rfl := reserved.parted e' e environment' environment i present' present
      (mem_values_of_get? own') (mem_values_of_get? own)
    cases present.symm.trans present'
    cases labelled.name_eq present own own'
    exact absurd ran (other _)
  | captured _ present' member own' =>
    exact absurd (own' ▸ assignable) (reserved.not_assignable_own present' member)
  | @published e' _ environment' _ _ home present' member instantiated =>
    have binary : environment'.kind = .binary :=
      (kinds _ _ _ home present').trans instantiated.binary
    have published : i ∈ environment'.published := by
      rwa [Environment.published_of_binary binary]
    exact absurd assignable (reserved.kept e' environment' i present'
      (List.mem_append_right _ published))

/-- Before a module is linked its bindings are not assigned. -/
theorem Lineage.never_assigned (lineage : Lineage interpreter homes (s :: past))
    (absent : s.environment? e = none) : Assigned e name (s :: past) none := by
  generalize whole : s :: past = events at lineage
  induction lineage generalizing s past with
  | start =>
    cases whole
    exact .never _
  | step before moves ih =>
    cases whole
    have earlier : ∀ environment, _ ≠ some environment := fun environment present => by
      obtain ⟨entities, kept⟩ := moves.grows.environments e environment present
      cases absent.symm.trans kept
    refine .before (fun value assigns => ?_) (ih (Option.eq_none_iff_forall_ne_some.mpr earlier) rfl)
    obtain ⟨there, _, present, _⟩ := assign_eq_ok assigns
    exact earlier there present

/-- At every moment since the module was linked, an own binding gives what was assigned to it
last, and what it began with before that. -/
theorem Lineage.outcome (lineage : Lineage interpreter homes (s :: past))
    (kinds : ∀ s' ∈ s :: past, ∀ e record environment, homes e record →
      s'.environment? e = some environment → environment.kind = record.kind)
    (only : ∀ other, homes e other → other = record)
    (present : s.environment? e = some environment) (own : environment.locals.get? name = some i) :
    ∃ first, s.Unassigned e record environment.identity name first ∧
      ∀ t older, t :: older <:+ s :: past → (∃ there, t.environment? e = some there) →
        ∃ last, Assigned e name (t :: older) last ∧ t.readSlot i = last.elim first .ok := by
  generalize whole : s :: past = events at lineage
  induction lineage generalizing s past environment with
  | start =>
    cases whole
    cases present
  | @step s₀ s₁ past₀ before moves ih =>
    cases whole
    cases earlier : s₀.environment? e with
    | some environment₀ =>
      obtain ⟨entities, kept⟩ := moves.grows.environments e environment₀ earlier
      cases present.symm.trans kept
      obtain ⟨first, unassigned, gives⟩ := ih
        (fun s' told => kinds s' (List.mem_cons_of_mem _ told)) earlier own rfl
      refine ⟨first, unassigned.kept moves.grows.toKeeps, fun t older onward there => ?_⟩
      rcases List.suffix_cons_iff.mp onward with same | onward
      · cases same
        by_cases assigns : ∃ value, Assigns e name value s₀ s₁
        · obtain ⟨value, assigns⟩ := assigns
          obtain ⟨slot, known, _⟩ :=
            before.labelled s₀ List.mem_cons_self e environment₀ earlier name i own
          have set := (assigns.changes earlier own).here slot known
          exact ⟨some value, .now assigns, readSlot_of_value set rfl⟩
        · have other : ∀ value, ¬ Assigns e name value s₀ s₁ := fun value now => assigns ⟨value, now⟩
          obtain ⟨last, assigned, read⟩ := gives s₀ past₀ (List.suffix_refl _) ⟨_, earlier⟩
          refine ⟨last, .before other assigned, Eq.trans ?_ read⟩
          exact moves.readSlot_own (before.reserved s₀ List.mem_cons_self)
            (before.labelled s₀ List.mem_cons_self) (kinds s₀ (by simp)) earlier own other
      · exact gives t older onward there
    | none =>
      rcases moves.fills_or_laid with ⟨e', names, slots, fills⟩ | ⟨_, adopts⟩
      · obtain ⟨there, before', _⟩ := fills.environments e environment present
        cases earlier.symm.trans before'
      obtain ⟨record', home, _, opens⟩ := adopts e environment present earlier
      cases only record' home
      obtain ⟨content, known, begins⟩ := opens.slots name i own
      -- Nothing but the link has happened to the binding.
      have never : Assigned e name (s₁ :: s₀ :: past₀) none := by
        refine .before (fun value assigns => ?_) (before.never_assigned earlier)
        obtain ⟨there, _, there', _⟩ := assign_eq_ok assigns
        cases earlier.symm.trans there'
      have since : ∀ first, s₁.readSlot i = first → ∀ t older, t :: older <:+ s₁ :: s₀ :: past₀ →
          (∃ there, t.environment? e = some there) →
            ∃ last, Assigned e name (t :: older) last ∧ t.readSlot i = last.elim first .ok := by
        intro first read t older onward ⟨there, there'⟩
        rcases List.suffix_cons_iff.mp onward with same | onward
        · cases same
          exact ⟨none, never, read⟩
        · have grows : t.Grows s₀ := before.grows.rel_head_of_rel_head_head
            (onward.subset List.mem_cons_self) (.refl s₀)
          obtain ⟨entities, kept⟩ := grows.environments e there there'
          cases earlier.symm.trans kept
      cases begins with
      | declared declared named source function =>
        exact ⟨_, .hoisted declared named source function, since _ (readSlot_of_value known rfl)⟩
      | untouched none =>
        refine ⟨_, .bare none, since _ ?_⟩
        unfold readSlot
        rw [known]
        rfl

end Store

namespace Site

/-- How an own binding of a script module is read and assigned, in the history of `calls`. -/
structure Coherent (setup : Setup κ σ ℓ) (memo : σ) (source : ℓ) (calls : List (Call κ σ ℓ))
    (site : Site κ σ ℓ) (i : Instance κ) (e : EnvironmentId) (environment : Environment) (x : String)
    (slot : SlotId) : Prop where
  /-- At every moment the binding gives what was assigned to it last, or what it began with. -/
  outcome : ∃ first, site.world.store.Unassigned e i.record i.identity x first ∧
    ∀ s past, s :: past <:+ site.world.past.events → (∃ there, s.environment? e = some there) →
      ∃ last, Store.Assigned e x (s :: past) last ∧ s.readSlot slot = last.elim first .ok
  owner : ∀ s ∈ site.world.past.events, (∃ there, s.environment? e = some there) →
    s.readName e x = s.readSlot slot
  exports : ∀ decl ∈ i.record.exports, (∀ specifier inner, decl.source ≠ .indirect specifier inner) →
    (environment.exports.get? decl.name = some slot ↔ decl.binding .script = x)
  /-- A namespace that was made at any time of the history shows it at every moment. -/
  namespaces : ∀ early late earlier, calls = early ++ late →
    earlier = (start memo source).run setup early → ∀ p name owner, earlier.registry.Linked p →
      earlier.registry.resolve earlier.world.store p name = .found owner slot →
        ∀ s : Store κ,
          (earlier.engine.namespaceOf earlier.world.store p).read s name = s.readSlot slot
  /-- A script module whose import comes to the binding, on whatever way, reads it in place. -/
  imports : ∀ p j e' name q q', site.registry.get? p = some j → j.environment = some e' →
    j.kind = .script → j.Asks name q → ReflTransGen site.registry.LeadsTo q q' →
      site.registry.Gives site.world.store q' slot → ∀ s ∈ site.world.past.events,
        (∃ there, s.environment? e' = some there) → s.readImport e' name = s.readSlot slot
  /-- An assignment changes the one slot, which is not that of any captured import. -/
  sets : ∀ s ∈ site.world.past.events, ∀ value s', Store.Assigns e x value s s' →
    s.Changes s' slot value ∧ ∀ e' environment', s.environment? e' = some environment' →
      ∀ b ∈ environment'.imports.values, b.own ≠ slot
  refused : ∀ (w w' : World κ σ) name value reason,
    (Program.operate (.assign e name value)).run setup.interpreter.calls w =
      (some (.error reason), w') → w' = w

variable {setup : Setup κ σ ℓ} {site : Site κ σ ℓ}

/-- What a script module imports from a script module is read in place. -/
theorem Durable.import_live (orderly : Orderly setup site) (durable : site.Durable)
    (wired : Links.Wired ⟨site.registry, site.world.store⟩) {m : ModuleId} {i : Instance κ}
    {e : EnvironmentId} {environment : Environment} {b : ImportBinding}
    (lives : Links.Lives ⟨site.registry, site.world.store⟩ m i e environment)
    (script : i.kind = .script) (member : b ∈ environment.imports.values)
    (assignable : site.world.store.Assignable b.target) : b.mode = .live := by
  have sources := wired.sources m i e environment lives b member
  obtain ⟨owner, known, mode⟩ := sources.mode
  obtain ⟨_, name, _, _, _, exported⟩ := sources.origin
  obtain ⟨_, e', there, known', home, present, given⟩ := Registry.exportSlot?_eq_some_iff.mp exported
  cases known.symm.trans known'
  refine mode.mpr (script.trans ?_)
  cases kind : owner.kind with
  | script => rfl
  | binary =>
    have apart := (durable.exports_apart orderly known home kind present).2 b.target
    exact absurd assignable (apart (Store.mem_values_of_get? given))

/-- Whatever happens to an engine, an own binding of a script module is the same wherever it is
read, and gives what was assigned to it last. -/
theorem bindings_coherent (setup : Setup κ σ ℓ) (memo : σ) (source : ℓ) {calls : List (Call κ σ ℓ)}
    (returns : Returns setup (start memo source) calls) {site : Site κ σ ℓ}
    (history : site = (start memo source).run setup calls) {m : ModuleId} {i : Instance κ}
    {e : EnvironmentId} {environment : Environment} {x : String} {slot : SlotId}
    (known : site.registry.get? m = some i) (home : i.environment = some e) (script : i.kind = .script)
    (present : site.world.store.environment? e = some environment)
    (own : environment.locals.get? x = some slot) :
    Coherent setup memo source calls site i e environment x slot := by
  have orderly : Orderly setup site := history ▸ Orderly.of_run setup memo source calls
  have durable : site.Durable := history ▸ Durable.of_returns returns
  have descends : site.world.Descends setup.interpreter site.registry.Home :=
    history ▸ descends_of_run setup memo source calls
  have wired : Links.Wired ⟨site.registry, site.world.store⟩ :=
    history ▸ wired_of_run setup memo source calls
  have assignable : site.world.store.Assignable slot :=
    ⟨e, environment, present, Store.mem_values_of_get? own⟩
  have houses := orderly.housed.sound.houses e i.record environment ⟨m, i, known, home, rfl⟩ present
  have stands := wired.stands m i e environment ⟨known, home, present⟩ script
  -- The environment is at each moment what it is now, but for its entities.
  have same : ∀ s ∈ site.world.past.events, ∀ there, s.environment? e = some there →
      there.locals = environment.locals := by
    intro s told there held
    obtain ⟨entities, kept⟩ := (orderly.past s told).2.environments e there held
    cases present.symm.trans kept
    rfl
  have reserved := descends.lineage.reserved
  constructor
  case outcome =>
    obtain ⟨_, now, identity⟩ := orderly.housed.present m i e known home
    cases present.symm.trans now
    obtain ⟨past, events, lineage⟩ := descends
    obtain ⟨first, unassigned, gives⟩ := lineage.outcome
      (fun s told e record there home held => orderly.kinds (events ▸ told) home held)
      (fun other there => orderly.housed.unique known home there) present own
    rw [events]
    exact ⟨first, identity ▸ unassigned, gives⟩
  case owner =>
    rintro s told ⟨there, held⟩
    unfold Store.readName
    rw [Store.environment_eq_ok.mpr held]
    simp only [bind, Except.bind, same s told there held, own]
  case exports =>
    intro decl declared direct
    obtain ⟨j, given⟩ := houses.given decl declared direct
    have binds := stands decl declared j given
    rw [given]
    constructor
    · rintro ⟨⟩
      have labelled := descends.lineage.labelled _ orderly.present
      exact labelled.name_eq present own binds
    · rintro rfl
      rw [← binds, own]
  case namespaces =>
    rintro early late _ _ rfl p name owner linked found s
    have orderly := Orderly.of_run setup memo source early
    exact Engine.read_namespaceOf (orderly.housed.resolvable orderly.stocked orderly.linkage.closed)
      linked found s
  case imports =>
    intro p j e' name q q' known' home' script' asks path gives s told ⟨there, held⟩
    obtain ⟨entities, kept⟩ := (orderly.past s told).2.environments e' there held
    obtain ⟨decl, declared, rfl, depends, asked⟩ := id asks
    have fits := Record.wellFormed_of_validate (orderly.stocked.checked p j known')
    have declares := durable.tidy.declares p j e' _ known' home' kept
    obtain ⟨b, member, bound⟩ := declares.bound declared
    have found := bound.localName ▸ declares.get? fits member
    obtain rfl := durable.target_eq orderly wired known' home' kept member
      (bound.localName.symm ▸ asks) path gives
    have live := durable.import_live orderly wired ⟨known', home', kept⟩ script' member assignable
    rw [Store.readImport_eq held found, ImportBinding.readSlot, live]
  case sets =>
    intro s told value s' assigns
    obtain ⟨there, j, held, own', _⟩ := Store.assign_eq_ok assigns
    have here := same s told there held
    refine ⟨assigns.changes held (here ▸ own), fun e' environment' held' b member taken => ?_⟩
    refine (reserved s told).not_assignable_own held' member ?_
    exact taken ▸ ⟨e, there, held, Store.mem_values_of_get? (here ▸ own)⟩
  case refused =>
    intro w w' name value reason ran
    rw [Program.run_operate] at ran
    unfold World.change at ran
    cases result : (Operation.assign e name value).perform w.store with
    | error err =>
      rw [result] at ran
      cases ran
      rfl
    | ok pair =>
      rw [result] at ran
      cases ran

end Site

/-- The user imports the binding of the relay through the hub, which gives it on by a star. It
reads what the relay reads at every moment, and what the relay was assigned in the end. -/
theorem Site.relay_coherent : ∃ (site : Site Unit Unit Unit) (environment : Environment)
    (slot : SlotId), site = (Site.start () ()).run Sample.handing Sample.handed ∧
      site.world.store.environment? ⟨2⟩ = some environment ∧
      environment.locals.get? "x" = some slot ∧
      (site.world.store.readSlot slot).toOption = some (.global ⟨0⟩) ∧
      ∀ s ∈ site.world.past.events, (∃ there, s.environment? ⟨0⟩ = some there) →
        s.readImport ⟨0⟩ "x" = s.readSlot slot := by
  have known := Sample.instances_handed
  generalize ended : (Site.start () ()).run Sample.handing Sample.handed = site at known
  have registered : ∀ n i, site.registry.instances[n]? = some i → site.registry.get? ⟨n⟩ = some i :=
    fun _ _ there => there
  rw [known] at registered
  have binding : ((site.world.store.environment? ⟨2⟩).bind fun there =>
      (there.locals.get? "x").map fun slot => (slot, there.exports.get? "x",
        (site.world.store.readSlot slot).toOption)) =
      some (⟨0⟩, some ⟨0⟩, some (.global ⟨0⟩)) := by
    rw [← ended]
    decide +kernel
  obtain ⟨environment, present, binding⟩ := Option.bind_eq_some_iff.mp binding
  obtain ⟨slot, own, same⟩ := Option.map_eq_some_iff.mp binding
  obtain ⟨rfl, given, read⟩ : slot = ⟨0⟩ ∧ environment.exports.get? "x" = some ⟨0⟩ ∧
      (site.world.store.readSlot slot).toOption = some (.global ⟨0⟩) := by simpa using same
  refine ⟨site, environment, ⟨0⟩, rfl, present, own, read, ?_⟩
  have relay := registered 2 _ rfl
  have coherent := Site.bindings_coherent Sample.handing () () Sample.returns_handed ended.symm
    relay rfl rfl present own
  refine coherent.imports ⟨0⟩ _ ⟨0⟩ "x" (⟨1⟩, "x") (⟨2⟩, "x") (registered 0 _ rfl) rfl rfl
    ⟨_, List.mem_cons_self, rfl, rfl, rfl⟩ (.single ?_) ⟨?_, ?_⟩
  · exact .star (registered 1 _ rfl) (by simp [Sample.standing, Sample.hub]) (by decide)
      List.mem_cons_self rfl
  · exact ⟨_, relay, _, List.mem_cons_self, rfl, fun _ _ same => by cases same⟩
  · exact Registry.exportSlot?_eq_some_iff.mpr ⟨_, ⟨2⟩, environment, relay, rfl, present, given⟩

end MixedModules
