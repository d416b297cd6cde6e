import MixedModules.Proofs.Evaluation.Finishing
import MixedModules.Proofs.Link.Beginning

/-! What one step can do to a store.

Slots and entities are written in few places: code assigns own bindings of script modules,
a module that is run observes its imports, makes its definitions, closes its own bindings
and publishes its exports, and linking adds the slots of new modules. All that there has
been of a store is a row of such steps, from the empty store on, and whatever each of them
keeps holds at every moment. -/
namespace MixedModules

variable {κ σ α β : Type}

namespace World

/-- What a script module does before its body runs. -/
def prepare (e : EnvironmentId) : Run (World κ σ) Unit := do
  let environment ← reading fun s => s.environment e
  observeImports e environment
  enterDeadZones environment

/-- The body of a script module comes last. -/
theorem runModule_eq (interpreter : Interpreter κ σ) (e : EnvironmentId) {record : Record κ}
    {code : Option κ} (shape : record.body = .script code) :
    runModule interpreter e record = (prepare e >>= fun _ => match code with
      | some code => (interpreter.embedder.body code e).run interpreter.calls
      | none => pure ()) := by
  unfold runModule prepare
  cases code <;> simp only [shape, bind_assoc]

/-- A run of the module of `e` comes to the import `b`, when it has observed those before. -/
def ComesTo (e : EnvironmentId) (b : ImportBinding) (w w' : World κ σ) : Prop :=
  ∃ environment first rest w₀, reading (fun s => s.environment e) w = (some (.ok environment), w₀) ∧
    environment.imports.values = first ++ b :: rest ∧
    (first.forM fun b => change (Store.observeImport e environment b) : Run (World κ σ) Unit) w₀ =
      (some (.ok ()), w')

/-- The binary module of `e` was instantiated without a failure, and `events` are the stores that
there had been then. -/
def Instantiated (calls : Calls κ σ) (e : EnvironmentId) (record : Record κ)
    (events : List (Store κ)) : Prop :=
  ∃ body environment w w', record.body = .binary body ∧ w.Ordered Store.Grows ∧
    w.store.environment? e = some environment ∧
    instantiate calls e environment.identity record body w = (some (.ok ()), w') ∧
    w'.past.events = events

theorem Instantiated.binary {calls : Calls κ σ} {e : EnvironmentId} {record : Record κ}
    {events : List (Store κ)} (instantiated : Instantiated calls e record events) :
    record.kind = .binary := by
  obtain ⟨body, _, _, _, shape, _⟩ := instantiated
  simp [Record.kind, shape]

end World

namespace Store

variable {interpreter : Interpreter κ σ} {homes homes' : EnvironmentId → Record κ → Prop}
  {past : List (Store κ)} {s s' : Store κ} {e : EnvironmentId}

/-- New environments are those of modules, whose own bindings hold what they begin with. -/
def Adopts (homes : EnvironmentId → Record κ → Prop) (s s' : Store κ) : Prop :=
  ∀ e environment, s'.environment? e = some environment → s.environment? e = none →
    ∃ record, homes e record ∧ environment.kind = record.kind ∧
      s'.Opens e record environment.identity environment.locals

/-- The module of `e` closes an own binding. -/
def Closes (e : EnvironmentId) (i : SlotId) (s s' : Store κ) : Prop :=
  (∃ environment, s.environment? e = some environment ∧ i ∈ environment.locals.values) ∧
    s' = s.modifySlot i Slot.enterDeadZone

/-- What can become of a store in one step, after the stores `past`. -/
inductive Moves (interpreter : Interpreter κ σ) (homes : EnvironmentId → Record κ → Prop)
    (past : List (Store κ)) (s : Store κ) : Store κ → Prop
  /-- Only objects change. -/
  | objects {s' : Store κ} (same : s.SameBindings s') : Moves interpreter homes past s s'
  /-- Code assigns an own binding. -/
  | assign {e : EnvironmentId} {name : String} {value : Value} {s' : Store κ}
      (ran : Store.assign e name value s = .ok ((), s')) : Moves interpreter homes past s s'
  /-- A module observes an import. -/
  | observe {e : EnvironmentId} {record : Record κ} {b : ImportBinding} {s' : Store κ}
      (home : homes e record) (observes : s.Observes e b s') : Moves interpreter homes past s s'
  /-- A binary module makes a definition. -/
  | define {e : EnvironmentId} {record : Record κ} {s₁ : Store κ} (home : homes e record)
      (same : s.SameBindings s₁) (name : String) (value : Value) :
      Moves interpreter homes past s (s₁.install e name value)
  /-- A script module closes an own binding that was never touched. -/
  | close {e : EnvironmentId} {record : Record κ} {environment : Environment} {i : SlotId}
      (home : homes e record) (script : record.kind = .script)
      (present : s.environment? e = some environment) (own : i ∈ environment.locals.values) :
      Moves interpreter homes past s (s.modifySlot i Slot.enterDeadZone)
  /-- A binary module publishes its exports, which ends its instantiation. -/
  | publish {e : EnvironmentId} {record : Record κ} {environment : Environment} {s' : Store κ}
      (home : homes e record) (present : s.environment? e = some environment)
      (instantiated : World.Instantiated interpreter.calls e record (s' :: s :: past))
      (publishes : s.Publishes e record s') : Moves interpreter homes past s s'
  /-- New modules are linked. -/
  | link {s' : Store κ} (grows : s.Grows s') (laid : s.Laid s') (adopts : s.Adopts homes s')
      (intact : s.Intact → s'.Intact) : Moves interpreter homes past s s'

/-- The stores that there have been, the latest first. -/
inductive Lineage (interpreter : Interpreter κ σ) (homes : EnvironmentId → Record κ → Prop) :
    List (Store κ) → Prop
  | start : Lineage interpreter homes [.empty]
  | step {s s' : Store κ} {past : List (Store κ)} (before : Lineage interpreter homes (s :: past))
      (moves : Moves interpreter homes past s s') : Lineage interpreter homes (s' :: s :: past)

theorem Moves.mono (moves : Moves interpreter homes past s s')
    (more : ∀ e record, homes e record → homes' e record) :
    Moves interpreter homes' past s s' := by
  cases moves with
  | objects same => exact .objects same
  | assign ran => exact .assign ran
  | observe home observes => exact .observe (more _ _ home) observes
  | define home same name value => exact .define (more _ _ home) same name value
  | close home script present own => exact .close (more _ _ home) script present own
  | publish home present instantiated publishes =>
    exact .publish (more _ _ home) present instantiated publishes
  | link grows laid adopts intact =>
    refine .link grows laid (fun e environment known new => ?_) intact
    obtain ⟨record, home, rest⟩ := adopts e environment known new
    exact ⟨record, more e record home, rest⟩

theorem Moves.grows (moves : Moves interpreter homes past s s') : s.Grows s' := by
  cases moves with
  | objects same => exact same.grows
  | assign ran => exact grows_assign ran
  | observe home observes =>
    obtain ⟨environment, _, _, ran⟩ := observes
    exact (homely_observeImport environment _).grows _ _ ran
  | define home same name value => exact same.grows.trans (grows_install ..)
  | close home script present own => exact grows_modifySlot enterDeadZone_content
  | publish home present instantiated publishes => exact (homely_publishAll _).grows _ _ publishes
  | link grows laid adopts => exact grows

theorem intact_observeImport {environment : Environment} {b : ImportBinding} (intact : s.Intact)
    (ran : observeImport e environment b s = .ok ((), s')) : s'.Intact := by
  cases importStep_of_observeImport ran with
  | left => exact intact
  | installed => exact intact.grows rfl rfl (grows_install ..)
  | captured => exact intact.grows rfl rfl (grows_modifySlot (setSnapshot_content _))
  | checked _ _ _ observes =>
    exact ((observe_spec observes).1.intact intact).grows rfl rfl
      ((grows_modifySlot (setSnapshot_content _)).trans (grows_install ..))

theorem intact_publishAll {decls : List (ExportDecl κ)} (intact : s.Intact)
    (ran : publishAll e decls s = .ok ((), s')) : s'.Intact := by
  obtain ⟨last, folded, same⟩ := bind_eq_ok ran
  cases same
  clear ran
  induction decls generalizing s with
  | nil =>
    cases folded
    exact intact
  | cons decl rest ih =>
    obtain ⟨next, first, folded⟩ := bind_eq_ok folded
    refine ih ?_ folded
    rcases publish_eq_ok first with rfl | ⟨name, _, published⟩
    · exact intact
    obtain ⟨_, value, _, _, ⟨_, rfl⟩ | ⟨i, _, rfl⟩⟩ := publishEntity_eq_ok published
    · exact intact
    · exact intact.grows rfl rfl (grows_modifySlot (setLive_content value))

theorem Moves.intact (moves : Moves interpreter homes past s s') (intact : s.Intact) :
    s'.Intact := by
  cases moves with
  | objects same => exact same.intact intact
  | assign ran =>
    obtain ⟨_, _, _, _, rfl⟩ := assign_eq_ok ran
    exact intact.grows rfl rfl (grows_modifySlot (setLive_content _))
  | observe home observes =>
    obtain ⟨_, _, _, ran⟩ := observes
    exact intact_observeImport intact ran
  | define home same name value => exact (same.intact intact).grows rfl rfl (grows_install ..)
  | close home script present own => exact intact.grows rfl rfl (grows_modifySlot enterDeadZone_content)
  | publish home present instantiated publishes => exact intact_publishAll intact publishes
  | link grows laid adopts kept => exact kept intact

/-- A step fills what is the module's own or may be assigned, or links new modules. -/
theorem Moves.fills_or_laid (moves : Moves interpreter homes past s s') :
    (∃ e names slots, s.Fills e names slots s') ∨ s.Laid s' ∧ s.Adopts homes s' := by
  cases moves with
  | objects same => exact .inl ⟨⟨0⟩, [], [], same.fills⟩
  | assign ran =>
    obtain ⟨environment, i, known, own, rfl⟩ := assign_eq_ok ran
    exact .inl ⟨⟨0⟩, [], [], fills_modifySlot (setLive_content _)
      (.inl ⟨_, environment, known, mem_values_of_get? own⟩)⟩
  | observe home observes =>
    obtain ⟨environment, _, _, ran⟩ := observes
    exact .inl ⟨_, _, _, fills_observeImport ran⟩
  | define home same name value =>
    exact .inl ⟨_, _, _, same.fills.trans (fills_install _ _ name value)⟩
  | close home script present own =>
    exact .inl ⟨⟨0⟩, [], [], fills_modifySlot enterDeadZone_content (.inl ⟨_, _, present, own⟩)⟩
  | @publish _ _ environment _ home present instantiated publishes =>
    exact .inl ⟨_, _, _, fills_publishAll ⟨environment.entities, present⟩ publishes⟩
  | link grows laid adopts => exact .inr ⟨laid, adopts⟩

/-- An operation of code changes objects or assigns a binding. -/
theorem Moves.perform {o : Operation κ} {a : o.Answer} (ran : o.perform s = .ok (a, s')) :
    Moves interpreter homes past s s' := by
  by_cases assigns : ∃ e name value, o = .assign e name value
  · obtain ⟨e, name, value, rfl⟩ := assigns
    exact .assign ran
  · exact .objects (sameBindings_perform ran fun e name value same => assigns ⟨e, name, value, same⟩)

namespace Lineage

variable {events : List (Store κ)}

theorem mono (lineage : Lineage interpreter homes events)
    (more : ∀ e record, homes e record → homes' e record) : Lineage interpreter homes' events := by
  induction lineage with
  | start => exact .start
  | step before moves ih => exact .step ih (moves.mono more)

/-- What has led to an earlier store is a lineage too. -/
theorem suffix {older : List (Store κ)} (lineage : Lineage interpreter homes events)
    (onward : older <:+ events) (some : older ≠ []) : Lineage interpreter homes older := by
  induction lineage with
  | start =>
    rcases List.suffix_cons_iff.mp onward with rfl | none
    · exact .start
    · exact absurd (List.suffix_nil.mp none) some
  | step before moves ih =>
    rcases List.suffix_cons_iff.mp onward with rfl | earlier
    · exact .step before moves
    · exact ih earlier

/-- What every step keeps holds at every moment. -/
theorem invariant {P : Store κ → Prop} (lineage : Lineage interpreter homes events)
    (start : P .empty)
    (step : ∀ past s s', s :: past <:+ events → P s → Moves interpreter homes past s s' → P s') :
    ∀ s ∈ events, P s := by
  induction lineage with
  | start => simpa using start
  | step before moves ih =>
    have earlier := ih fun past s s' onward => step past s s' (onward.trans (List.suffix_cons _ _))
    refine List.forall_mem_cons.mpr ⟨?_, earlier⟩
    exact step _ _ _ (List.suffix_cons _ _) (earlier _ List.mem_cons_self) moves

/-- What leads from each store to the next leads from every store to all later ones. -/
theorem pairwise {R : Store κ → Store κ → Prop} (lineage : Lineage interpreter homes events)
    (trans : ∀ s s' s'', R s s' → R s' s'' → R s s'')
    (step : ∀ past s s', s :: past <:+ events → Moves interpreter homes past s s' → R s s') :
    events.Pairwise fun later earlier => R earlier later := by
  induction lineage with
  | start => simp
  | @step s s' past before moves ih =>
    have earlier := ih fun past s s' onward => step past s s' (onward.trans (List.suffix_cons _ _))
    have here := step _ _ _ (List.suffix_cons _ _) moves
    refine List.pairwise_cons.mpr ⟨fun t told => ?_, earlier⟩
    rcases List.mem_cons.mp told with rfl | before
    · exact here
    · exact trans _ _ _ ((List.pairwise_cons.mp earlier).1 t before) here

theorem grows (lineage : Lineage interpreter homes events) :
    events.Pairwise fun later earlier => earlier.Grows later :=
  lineage.pairwise (fun _ _ _ first second => first.trans second) fun _ _ _ _ moves => moves.grows

/-- Objects are what their types say at every moment. -/
theorem intact (lineage : Lineage interpreter homes events) : ∀ s ∈ events, s.Intact :=
  lineage.invariant .empty fun _ _ _ _ intact moves => moves.intact intact

/-- Reserved slots are reserved at every moment. -/
theorem reserved (lineage : Lineage interpreter homes events) : ∀ s ∈ events, s.Reserved := by
  refine lineage.invariant .empty fun past s s' _ reserved moves => ?_
  rcases moves.fills_or_laid with ⟨e, names, slots, fills⟩ | ⟨laid, _⟩
  · exact reserved.fills fills
  · exact laid.reserved

end Lineage

end Store

namespace World

open Store (Moves Lineage)

variable {interpreter : Interpreter κ σ} {homes homes' : EnvironmentId → Record κ → Prop}
  {w w' : World κ σ} {e : EnvironmentId} {record : Record κ} {environment : Environment}

/-- The present store has come out of the empty one, step by step. -/
def Descends (interpreter : Interpreter κ σ) (homes : EnvironmentId → Record κ → Prop)
    (w : World κ σ) : Prop :=
  ∃ past, w.past.events = w.store :: past ∧ Lineage interpreter homes (w.store :: past)

namespace Descends

theorem start (memo : σ) : (World.start .empty memo : World κ σ).Descends interpreter homes :=
  ⟨[], by simp [World.start], .start⟩

theorem lineage (descends : w.Descends interpreter homes) :
    Lineage interpreter homes w.past.events := by
  obtain ⟨past, events, lineage⟩ := descends
  rwa [events]

theorem ordered (descends : w.Descends interpreter homes) : w.Ordered Store.Grows := by
  obtain ⟨past, events, lineage⟩ := descends
  exact ⟨by rw [events]; rfl, by rw [events]; exact lineage.grows⟩

theorem mono (descends : w.Descends interpreter homes)
    (more : ∀ e record, homes e record → homes' e record) : w.Descends interpreter homes' := by
  obtain ⟨past, events, lineage⟩ := descends
  exact ⟨past, events, lineage.mono more⟩

theorem become {s : Store κ} (descends : w.Descends interpreter homes)
    (moves : ∀ past, w.past.events = w.store :: past → Moves interpreter homes past w.store s) :
    (w.become s).Descends interpreter homes := by
  obtain ⟨past, events, lineage⟩ := descends
  refine ⟨w.store :: past, ?_, .step lineage (moves past events)⟩
  rw [World.become, Chronicle.events_add, events]

end Descends

theorem since_become (w : World κ σ) (s : Store κ) : w.past.events <:+ (w.become s).past.events := by
  rw [World.become, Chronicle.events_add]
  exact List.suffix_cons s w.past.events

/-- One world comes out of another, step by step. -/
structure Goes (interpreter : Interpreter κ σ) (homes : EnvironmentId → Record κ → Prop)
    (w w' : World κ σ) : Prop where
  descends : w.Descends interpreter homes → w'.Descends interpreter homes
  grows : w.store.Grows w'.store
  since : w.past.events <:+ w'.past.events

theorem Goes.refl (w : World κ σ) : Goes interpreter homes w w :=
  ⟨fun before => before, .refl _, List.suffix_refl _⟩

theorem Goes.trans {w'' : World κ σ} (first : Goes interpreter homes w w')
    (second : Goes interpreter homes w' w'') : Goes interpreter homes w w'' :=
  ⟨fun before => second.descends (first.descends before), first.grows.trans second.grows,
    first.since.trans second.since⟩

theorem Goes.become {s : Store κ} (moves : ∀ past, Moves interpreter homes past w.store s) :
    Goes interpreter homes w (w.become s) :=
  ⟨fun before => before.become fun past _ => moves past, (moves []).grows, since_become w s⟩

/-- Whatever code does is done step by step. -/
theorem passing_goes : Passing (Goes interpreter homes) where
  refl := .refl
  trans _ _ _ first second := first.trans second
  operate _ _ _ _ ran := .become fun _ => .perform ran
  keep w _ :=
    ⟨fun ⟨past, events, lineage⟩ => ⟨past, events, lineage⟩, .refl w.store, List.suffix_refl _⟩

/-- A run for the module of `e` that goes step by step. -/
def Paces (interpreter : Interpreter κ σ) (homes : EnvironmentId → Record κ → Prop)
    (e : EnvironmentId) (environment : Environment) (x : Run (World κ σ) α) : Prop :=
  ∀ w, w.store.Shows e environment → Goes interpreter homes w (x w).2

namespace Paces

theorem of_passes {x : Run (World κ σ) α} (passes : Passes (Goes interpreter homes) x) :
    Paces interpreter homes e environment x := fun w _ => passes w

theorem change {step : Change κ α} (moves : ∀ past s s' a, s.Shows e environment →
    step s = .ok (a, s') → Moves interpreter homes past s s') :
    Paces interpreter homes e environment (change step) := by
  intro w shows
  unfold World.change
  cases result : step w.store with
  | error err => exact .refl w
  | ok pair => exact .become fun past => moves past _ pair.2 pair.1 shows result

theorem bind {x : Run (World κ σ) α} {next : α → Run (World κ σ) β}
    (first : Paces interpreter homes e environment x)
    (second : ∀ a, Paces interpreter homes e environment (next a)) :
    Paces interpreter homes e environment (x >>= next) := by
  intro w shows
  have here := first w shows
  rw [Run.bind_apply]
  rcases result : x w with ⟨_ | _ | a, w'⟩ <;> rw [result] at here
  · exact here
  · exact here
  · exact here.trans (second a w' (shows.kept here.grows))

theorem forM {xs : List α} {f : α → Run (World κ σ) Unit}
    (each : ∀ x ∈ xs, Paces interpreter homes e environment (f x)) :
    Paces interpreter homes e environment (xs.forM f) := by
  induction xs with
  | nil => exact fun w _ => .refl w
  | cons x rest ih =>
    refine (each x List.mem_cons_self).bind fun _ => ?_
    exact ih fun y member => each y (List.mem_cons_of_mem x member)

end Paces

/-! ## The whole module -/

section Module

variable (interpreter : Interpreter κ σ) (home : homes e record)

include home

theorem paces_observes {l : List ImportBinding} (inside : ∀ b ∈ l, b ∈ environment.imports.values) :
    Paces interpreter homes e environment
      (l.forM fun b => change (Store.observeImport e environment b) : Run (World κ σ) Unit) := by
  refine .forM fun b member => .change ?_
  rintro past s s' _ ⟨entities, known⟩ ran
  exact .observe home ⟨_, known, inside b member, ran⟩

theorem paces_observeImports : Paces interpreter homes e environment
    (observeImports e environment : Run (World κ σ) Unit) :=
  paces_observes interpreter home fun _ member => member

theorem paces_enterDeadZones (script : record.kind = .script) :
    Paces interpreter homes e environment (enterDeadZones environment : Run (World κ σ) Unit) := by
  refine .forM fun i member => .change ?_
  rintro past s s' _ ⟨entities, known⟩ ran
  cases ran
  exact .close home script known member

theorem paces_define (identity : String) (body : BinaryBody κ) :
    Paces interpreter homes e environment (define interpreter.calls e identity body) := by
  have elements : ∀ segment, Paces interpreter homes e environment
      (applyElements e identity segment : Run (World κ σ) Unit) := by
    intro segment
    unfold applyElements
    refine .bind (.of_passes (passes_reading passing_goes _)) fun t => ?_
    exact .forM fun entry _ => .change fun _ _ _ _ _ ran =>
      .objects (Store.sameBindings_applyElement ran)
  unfold define
  refine .bind (.forM fun d _ => .change fun _ s s' _ _ ran => ?_) fun _ => ?_
  · obtain ⟨initial, g, s₁, made, rfl⟩ := Store.defineGlobal_eq_ok ran
    exact .define home (Store.sameBindings_newGlobal made).1 d.name (.global g)
  refine .bind (.forM fun d _ => .change fun _ s s' _ _ ran => ?_) fun _ => ?_
  · obtain ⟨⟨m, s₁⟩, made, ran⟩ := bind_eq_ok ran
    cases ran
    exact .define home (Store.sameBindings_newMemory made).1 d.name (.memory m)
  refine .bind (.forM fun d _ => .change fun _ s s' _ _ ran => ?_) fun _ => ?_
  · obtain ⟨⟨t, s₁⟩, made, ran⟩ := bind_eq_ok ran
    cases ran
    exact .define home (Store.sameBindings_newTable made).1 d.name (.table t)
  refine .bind (.forM fun d _ => .change fun _ s s' _ ⟨_, present⟩ ran => ?_) fun _ => ?_
  · cases ran
    refine .define home (Store.sameBindings_addFunction s d.name ?_ ?_) d.name (.function _)
    · rintro _ _ _ ⟨⟩
      exact ⟨_, present⟩
    · nofun
  refine .bind (.forM fun segment _ => .change fun _ _ _ _ _ ran =>
    .objects (Store.sameBindings_applyData ran)) fun _ => ?_
  refine .bind (.forM fun segment _ => elements segment) fun _ => ?_
  cases body.start with
  | none => exact fun w _ => .refl w
  | some name =>
    refine .bind (.of_passes ?_) fun _ w _ => .refl w
    exact passes_run passing_goes (passes_ofDepth passing_goes _ _) _

/-- When the exports are published, the instantiation has succeeded. -/
theorem paces_instantiate {body : BinaryBody κ} (shape : record.body = .binary body) :
    Paces interpreter homes e environment
      (instantiate interpreter.calls e environment.identity record body) := by
  intro w shows
  have here := paces_define interpreter home environment.identity body w shows
  rcases result : define interpreter.calls e environment.identity body w with ⟨_ | err | _, w₁⟩ <;>
    rw [result] at here
  · rwa [instantiate_eq, Run.bind_apply, result]
  · rwa [instantiate_eq, Run.bind_apply, result]
  cases published : Store.publishAll e record.exports w₁.store with
  | error err =>
    rw [instantiate_eq, Run.bind_apply, result]
    simp only [World.change, published]
    exact here
  | ok pair =>
    obtain ⟨_, s⟩ := pair
    have whole : instantiate interpreter.calls e environment.identity record body w =
        (some (.ok ()), w₁.become s) := by
      rw [instantiate_eq, Run.bind_apply, result]
      simp only [World.change, published]
    rw [whole]
    obtain ⟨entities, present⟩ := shows
    obtain ⟨entities', present'⟩ := here.grows.environments e _ present
    refine ⟨fun before => (here.descends before).become fun past events => ?_,
      here.grows.trans ((Store.homely_publishAll record.exports).grows _ s published),
      here.since.trans (since_become w₁ s)⟩
    refine .publish home present' ⟨body, _, w, _, shape, before.ordered, present, whole, ?_⟩ published
    rw [World.become, Chronicle.events_add, events]

/-- What a module does after its imports were observed. -/
theorem paces_body : Paces interpreter homes e environment (match record.body with
    | .script code => do
      enterDeadZones environment
      match code with
      | some code => (interpreter.embedder.body code e).run interpreter.calls
      | none => pure ()
    | .binary body => instantiate interpreter.calls e environment.identity record body) := by
  cases shape : record.body with
  | script code =>
    refine .bind (paces_enterDeadZones interpreter home (by simp [Record.kind, shape])) fun _ => ?_
    cases code with
    | none => exact fun w _ => .refl w
    | some code => exact .of_passes (passes_run passing_goes (passes_ofDepth passing_goes _ _) _)
  | binary body => exact paces_instantiate interpreter home shape

/-- Whatever a module does when it is run is done step by step. -/
theorem goes_runModule : Passes (Goes interpreter homes) (runModule interpreter e record) := by
  intro w
  have first : Passes (Goes interpreter homes) (reading fun s : Store κ => s.environment e) :=
    passes_reading passing_goes _
  have here := first w
  unfold runModule
  rw [Run.bind_apply]
  rcases result : (reading fun s => s.environment e : Run (World κ σ) Environment) w with
    ⟨_ | _ | environment, w₁⟩ <;> rw [result] at here
  · exact here
  · exact here
  obtain ⟨known, same⟩ := reading_eq_ok result
  have shows : w₁.store.Shows e environment :=
    ⟨environment.entities, same ▸ Store.environment_eq_ok.mp known⟩
  have observes : Paces interpreter homes e environment
      (observeImports e environment : Run (World κ σ) Unit) := paces_observeImports interpreter home
  exact here.trans (Paces.bind observes (fun _ => paces_body interpreter home) w₁ shows)

/-- What is done up to the moment at which an import is observed, and from then on. -/
theorem ComesTo.goes {b : ImportBinding} (comes : ComesTo e b w w') :
    Goes interpreter homes w w' ∧ Goes interpreter homes w' (runModule interpreter e record w).2 ∧
      ∃ environment, w'.store.environment? e = some environment ∧
        b ∈ environment.imports.values := by
  obtain ⟨environment, first, rest, w₀, read, parts, ready⟩ := comes
  have reads : Passes (Goes interpreter homes) (reading fun s : Store κ => s.environment e) :=
    passes_reading passing_goes _
  have here := reads w
  rw [read] at here
  obtain ⟨known, same⟩ := reading_eq_ok read
  have shows : w₀.store.Shows e environment :=
    ⟨environment.entities, same ▸ Store.environment_eq_ok.mp known⟩
  have before := paces_observes (l := first) interpreter home
    (fun x member => parts ▸ List.mem_append_left (b :: rest) member) w₀ shows
  have after := Paces.bind (paces_observes (l := b :: rest) interpreter home
    (fun x member => parts ▸ List.mem_append_right first member))
    (fun _ => (paces_body interpreter home : Paces interpreter homes e environment _))
  rw [ready] at before
  have shows' := shows.kept before.grows
  obtain ⟨entities, present⟩ := id shows'
  refine ⟨here.trans before, ?_, _, present, by simp [parts]⟩
  have onward := after w' shows'
  unfold runModule observeImports
  rw [Run.bind_apply, read]
  simp only [parts]
  rw [List.forM_eq_forM] at ready ⊢
  rw [List.forM_append, bind_assoc, Run.bind_apply, ready]
  exact onward

omit home in
/-- What is left when a script module is prepared is its body. -/
theorem goes_body {code : Option κ} (shape : record.body = .script code)
    (ran : prepare e w = (some (.ok ()), w')) :
    Goes interpreter homes w' (runModule interpreter e record w).2 := by
  rw [runModule_eq interpreter e shape, Run.bind_apply, ran]
  cases code with
  | none => exact .refl w'
  | some code => exact passes_run passing_goes (passes_ofDepth passing_goes _ _) _ w'

end Module

/-- Each own binding was closed, unless it was touched before, when the body begins. -/
theorem closed_of_prepare (ordered : w.Ordered Store.Grows)
    (ran : prepare e w = (some (.ok ()), w')) : w'.Ordered Store.Grows ∧
      ∃ environment, w'.store.environment? e = some environment ∧
        ∀ i ∈ environment.locals.values, ∃ since, w'.Took (Store.Closes e i) since := by
  have close : ∀ i, Through Store.Grows (World.change fun s : Store κ =>
      .ok ((), s.modifySlot i Slot.enterDeadZone) : Run (World κ σ) Unit) := fun i w =>
    leads_change Store.respected_grows fun _ s changed => by
      cases changed
      exact Store.grows_modifySlot Store.enterDeadZone_content
  unfold prepare at ran
  obtain ⟨environment, w₁, result, ran⟩ := Run.bind_eq_ok ran
  have here := through_reading (σ := σ) Store.respected_grows (fun s : Store κ => s.environment e) w
  rw [result] at here
  obtain ⟨known, same⟩ := reading_eq_ok result
  have shows : w₁.store.Shows e environment :=
    ⟨environment.entities, same ▸ Store.environment_eq_ok.mp known⟩
  have whole : Through Store.Grows (observeImports e environment >>= fun _ =>
      enterDeadZones environment : Run (World κ σ) Unit) :=
    through_bind Store.respected_grows (through_observeImports e environment) fun _ =>
      through_forM Store.respected_grows fun i _ => close i
  have leads := whole w₁
  rw [ran] at leads
  obtain ⟨entities, present⟩ := shows.kept leads.present
  refine ⟨leads.ordered (here.ordered ordered), _, present, fun i member => ?_⟩
  have tells : Tells e environment (fun w : World κ σ => ∃ since, w.Took (Store.Closes e i) since)
      (enterDeadZones environment) := by
    refine .forM (lasts_took _) (fun j _ => close j) member
      (.change fun s s' ⟨entities, there⟩ changed => ?_)
    cases changed
    exact ⟨⟨_, there, member⟩, rfl⟩
  exact Tells.after (through_observeImports e environment) (fun _ => tells) w₁ () w'
    (here.ordered ordered) shows ran

end World

namespace Machine

open World

variable {interpreter : Interpreter κ σ} {r : Registry κ}

/-- A module that is run goes step by step, for the home that it has. -/
theorem goes_program (m : ModuleId) : Passes (Goes interpreter r.Home) (program interpreter r m) := by
  unfold program
  cases known : r.get? m with
  | none => exact passes_throw passing_goes _
  | some i =>
    cases home : i.environment with
    | none =>
      simp only [home]
      exact passes_throw passing_goes _
    | some e =>
      simp only [home]
      exact goes_runModule interpreter ⟨m, i, known, home, rfl⟩

/-- So do modules that are run one after the other. -/
theorem goes_runSearch (stop : Option EvalError) (order : List (ModuleId × List ModuleId))
    (w : World κ σ) : Goes interpreter r.Home w (runSearch interpreter r stop order w).2.2 := by
  induction order generalizing w with
  | nil => exact .refl w
  | cons entry rest ih =>
    have here : Goes interpreter r.Home w (program interpreter r entry.1 w).2 := goes_program entry.1 w
    unfold runSearch at ih ⊢
    simp only [runInOrder]
    rcases result : program interpreter r entry.1 w with ⟨_ | _ | _, w'⟩ <;> rw [result] at here
    · exact here
    · exact here
    · exact here.trans (ih w')

end Machine
end MixedModules
