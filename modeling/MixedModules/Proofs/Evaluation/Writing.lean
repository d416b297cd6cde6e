import MixedModules.Proofs.Evaluation.Moves

/-! Where slots are written, and what they may hold.

Code writes own bindings, a script module closes its own bindings before its body runs, each
module fills the slots of the imports that it captures, and a binary module fills those of its
exports. No step writes any other slot. So a slot holds what is in place for it: a captured
value only where an import was captured, and so on. -/
namespace MixedModules

variable {κ σ : Type}

/-- The slots of a module: those of its own bindings, and those that only it fills. -/
def Environment.slots (environment : Environment) : List SlotId :=
  environment.locals.values ++ environment.reserved

namespace Store

variable {interpreter : Interpreter κ σ} {homes : EnvironmentId → Record κ → Prop}
  {past : List (Store κ)} {s s' : Store κ} {e : EnvironmentId} {record : Record κ}
  {environment : Environment} {i : SlotId} {slot : Slot}

/-! ## One step -/

theorem slot?_congr (same : s'.slots = s.slots) (i : SlotId) : s'.slot? i = s.slot? i := by
  rw [slot?, same, ← slot?]

/-- A change of one slot leaves all others, and makes of this one what the change says. -/
theorem slot?_modifySlot_cases (known : s.slot? i = some slot) (j : SlotId) (change : Slot → Slot) :
    (s.modifySlot j change).slot? i = some slot ∨
      j = i ∧ (s.modifySlot j change).slot? i = some (change slot) := by
  rw [slot?_modifySlot, known]
  split
  · next same => exact .inr ⟨same, rfl⟩
  · exact .inl rfl

/-- Observing an import writes at most the importer's own slot for it, when it is captured. -/
theorem slots_observeImport {b : ImportBinding} (ran : observeImport e environment b s = .ok ((), s')) :
    s'.slots = s.slots ∨ b.mode = .snapshot ∧ ∃ value,
      s'.slots = (s.modifySlot b.own fun slot => slot.setSnapshot value).slots := by
  cases importStep_of_observeImport ran with
  | left | installed => exact .inl rfl
  | captured _ snapshot => exact .inr ⟨snapshot, _, rfl⟩
  | @checked _ observed _ _ snapshot _ observes =>
    refine .inr ⟨snapshot, observed, ?_⟩
    simp only [install, modifyEnvironment, modifySlot, (observe_spec observes).1.slots]

/-- Publishing writes slots of exports, with values that are there for good. -/
theorem slot?_publishes {decls : List (ExportDecl κ)} (ran : decls.foldlM (publish e) s = .ok s')
    (present : s.environment? e = some environment) (known : s.slot? i = some slot) :
    s'.slot? i = some slot ∨
      i ∈ environment.exports.values ∧ ∃ value, s'.slot? i = some (slot.setLive value) := by
  induction decls generalizing s slot with
  | nil =>
    cases ran
    exact .inl known
  | cons decl rest ih =>
    obtain ⟨next, first, onward⟩ := bind_eq_ok ran
    rcases publish_eq_ok first with rfl | ⟨name, _, published⟩
    · exact ih onward present known
    obtain ⟨there, value, present', _, ⟨_, rfl⟩ | ⟨j, given, rfl⟩⟩ := publishEntity_eq_ok published
    · exact ih onward present known
    cases present.symm.trans present'
    rcases slot?_modifySlot_cases known j fun slot => slot.setLive value with same | ⟨rfl, set⟩
    · exact ih onward present same
    · refine .inr ⟨mem_values_of_get? given, ?_⟩
      rcases ih onward present set with same | ⟨_, last, changed⟩
      · exact ⟨value, same⟩
      · exact ⟨last, changed⟩

/-- What the slot `i` holds before a step and after it, by what the step does. -/
inductive Writes (interpreter : Interpreter κ σ) (homes : EnvironmentId → Record κ → Prop)
    (past : List (Store κ)) (s s' : Store κ) (i : SlotId) : SlotContent → SlotContent → Prop
  | kept (before : SlotContent) : Writes interpreter homes past s s' i before before
  /-- Code assigns an own binding. -/
  | assigned {e : EnvironmentId} {environment : Environment} {name : String} {value : Value}
      (before : SlotContent) (ran : assign e name value s = .ok ((), s'))
      (present : s.environment? e = some environment) (own : environment.locals.get? name = some i) :
      Writes interpreter homes past s s' i before (.live value)
  /-- A script module closes an own binding. -/
  | closed {e : EnvironmentId} {record : Record κ} {environment : Environment}
      (home : homes e record) (script : record.kind = .script)
      (present : s.environment? e = some environment) (own : i ∈ environment.locals.values) :
      Writes interpreter homes past s s' i .uninitialized .deadZone
  /-- A module captures an import. -/
  | captured {e : EnvironmentId} {environment : Environment} {b : ImportBinding} {value : Value}
      (before : SlotContent) (present : s.environment? e = some environment)
      (member : b ∈ environment.imports.values) (own : b.own = i) :
      Writes interpreter homes past s s' i before (.snapshot value)
  /-- A binary module publishes an export. -/
  | published {e : EnvironmentId} {record : Record κ} {environment : Environment} {value : Value}
      (before : SlotContent) (home : homes e record) (present : s.environment? e = some environment)
      (member : i ∈ environment.exports.values)
      (instantiated : World.Instantiated interpreter.calls e record (s' :: s :: past)) :
      Writes interpreter homes past s s' i before (.live value)

/-- Every step leaves a slot in its place, and writes it in one of these ways. -/
theorem Moves.writes (moves : Moves interpreter homes past s s') (known : s.slot? i = some slot) :
    ∃ content, s'.slot? i = some { slot with content } ∧
      Writes interpreter homes past s s' i slot.content content := by
  have keeps : ∀ {s' : Store κ}, s'.slot? i = some slot → ∃ content,
      s'.slot? i = some { slot with content } ∧
        Writes interpreter homes past s s' i slot.content content :=
    fun same => ⟨slot.content, same, .kept slot.content⟩
  cases moves with
  | objects same => exact keeps ((slot?_congr same.slots i).trans known)
  | assign ran =>
    obtain ⟨environment, j, present, own, rfl⟩ := assign_eq_ok ran
    rcases slot?_modifySlot_cases known j _ with same | ⟨rfl, set⟩
    · exact keeps same
    · exact ⟨_, set, .assigned _ ran present own⟩
  | observe home observes =>
    obtain ⟨environment, present, member, ran⟩ := observes
    rcases slots_observeImport ran with same | ⟨_, value, written⟩
    · exact keeps ((slot?_congr same i).trans known)
    rcases slot?_modifySlot_cases known _ (fun slot => slot.setSnapshot value) with same | ⟨own, set⟩
    · exact keeps ((slot?_congr written i).trans same)
    · exact ⟨_, (slot?_congr written i).trans set, .captured _ present member own⟩
  | define home same name value => exact keeps ((slot?_congr same.slots i).trans known)
  | @close _ _ _ j home script present own =>
    rcases slot?_modifySlot_cases known j Slot.enterDeadZone with same | ⟨rfl, closed⟩
    · exact keeps same
    · rcases slot with ⟨owner, name, kind, type, content⟩
      cases content with
      | uninitialized => exact ⟨.deadZone, closed, .closed home script present own⟩
      | deadZone | snapshot | live => exact keeps closed
  | publish home present instantiated publishes =>
    obtain ⟨last, folded, same⟩ := bind_eq_ok publishes
    cases same
    rcases slot?_publishes folded present known with same | ⟨member, value, set⟩
    · exact keeps same
    · exact ⟨_, set, .published _ home present member instantiated⟩
  | link grows laid adopts => exact keeps (laid.slots i slot known)

/-- A slot that was touched once does not become untouched again. -/
def Touches (s s' : Store κ) : Prop :=
  ∀ i slot, s.slot? i = some slot → slot.content ≠ .uninitialized →
    ∃ slot', s'.slot? i = some slot' ∧ slot'.content ≠ .uninitialized

theorem Moves.touches (moves : Moves interpreter homes past s s') : s.Touches s' := by
  intro i slot known touched
  obtain ⟨content, known', writes⟩ := moves.writes known
  refine ⟨_, known', ?_⟩
  generalize slot.content = before at touched writes
  cases writes with
  | kept => exact touched
  | closed => exact absurd rfl touched
  | assigned | captured | published => simp

/-! ## What is in place -/

theorem Reserved.not_assignable_own {b : ImportBinding} (reserved : s.Reserved)
    (present : s.environment? e = some environment) (member : b ∈ environment.imports.values) :
    ¬ s.Assignable b.own :=
  reserved.kept e environment b.own present
    (List.mem_append_left _ (List.mem_map.mpr ⟨b, member, rfl⟩))

/-- The slot of a captured import is none that is published. -/
theorem Reserved.not_published_own {b : ImportBinding} {e' : EnvironmentId}
    {environment' : Environment} (reserved : s.Reserved)
    (present : s.environment? e = some environment) (member : b ∈ environment.imports.values)
    (present' : s.environment? e' = some environment') : b.own ∉ environment'.published := by
  intro published
  have mine : b.own ∈ environment.imports.values.map (·.own) := List.mem_map.mpr ⟨b, member, rfl⟩
  obtain rfl := reserved.own e e' environment environment' b.own present present'
    (List.mem_append_left _ mine) (List.mem_append_right _ published)
  cases present.symm.trans present'
  exact (List.nodup_append.mp (reserved.once e environment present)).2.2 b.own mine b.own published rfl

/-- What a slot may hold, by what it is for. -/
inductive Fit (s : Store κ) (i : SlotId) : SlotContent → Prop
  | vacant : Fit s i .uninitialized
  | closed {e : EnvironmentId} {environment : Environment}
      (present : s.environment? e = some environment) (script : environment.kind = .script)
      (own : i ∈ environment.locals.values) : Fit s i .deadZone
  | produced (assignable : s.Assignable i) (value : Value) : Fit s i (.live value)
  | captured {e : EnvironmentId} {environment : Environment} {b : ImportBinding}
      (present : s.environment? e = some environment) (member : b ∈ environment.imports.values)
      (own : b.own = i) (value : Value) : Fit s i (.snapshot value)
  | published {e : EnvironmentId} {environment : Environment}
      (present : s.environment? e = some environment) (member : i ∈ environment.published)
      (value : Value) : Fit s i (.live value)

namespace Fit

variable {content : SlotContent}

theorem grows (fit : s.Fit i content) (grows : s.Grows s') : s'.Fit i content := by
  cases fit with
  | vacant => exact .vacant
  | closed present script own =>
    obtain ⟨entities, present'⟩ := grows.environments _ _ present
    exact .closed present' script own
  | produced assignable value => exact .produced (assignable.grows grows) value
  | captured present member own value =>
    obtain ⟨entities, present'⟩ := grows.environments _ _ present
    exact .captured present' member own value
  | published present member value =>
    obtain ⟨entities, present'⟩ := grows.environments _ _ present
    exact .published present' member value

/-- What a step writes is in place, if the module of each environment is of its kind. -/
theorem writes {before after : SlotContent} (fit : s.Fit i before)
    (writes : Writes interpreter homes past s s' i before after) (grows : s.Grows s')
    (kinds : ∀ e record environment, homes e record → s.environment? e = some environment →
      environment.kind = record.kind) : s'.Fit i after := by
  cases writes with
  | kept => exact fit.grows grows
  | assigned _ ran present own =>
    exact .produced (Assignable.grows ⟨_, _, present, mem_values_of_get? own⟩ grows) _
  | closed home script present own =>
    exact (Fit.closed present ((kinds _ _ _ home present).trans script) own).grows grows
  | captured _ present member own =>
    exact (Fit.captured present member own _).grows grows
  | @published _ record environment _ _ home present member instantiated =>
    have binary : environment.kind = .binary := (kinds _ _ _ home present).trans instantiated.binary
    have published : i ∈ environment.published := by rwa [Environment.published_of_binary binary]
    exact (Fit.published present published _).grows grows

/-- What code may assign is never captured. -/
theorem of_assignable (fit : s.Fit i content) (reserved : s.Reserved) (assignable : s.Assignable i) :
    ∀ value, content ≠ .snapshot value := by
  rintro _ rfl
  cases fit with
  | captured present member own => exact reserved.not_assignable_own present member (own ▸ assignable)

/-- The slot of a captured import is empty, or it holds what was captured. -/
theorem of_own {b : ImportBinding} (fit : s.Fit b.own content) (reserved : s.Reserved)
    (present : s.environment? e = some environment) (member : b ∈ environment.imports.values) :
    content = .uninitialized ∨ ∃ value, content = .snapshot value := by
  have apart := reserved.not_assignable_own present member
  cases fit with
  | vacant => exact .inl rfl
  | closed present' script own => exact absurd ⟨_, _, present', own⟩ apart
  | produced assignable value => exact absurd assignable apart
  | captured present' member' own value => exact .inr ⟨value, rfl⟩
  | published present' member' value =>
    exact absurd member' (reserved.not_published_own present member present')

/-- What a module publishes is empty or live. -/
theorem of_published (fit : s.Fit i content) (reserved : s.Reserved)
    (present : s.environment? e = some environment) (member : i ∈ environment.published) :
    content = .uninitialized ∨ ∃ value, content = .live value := by
  have apart := reserved.kept e environment i present (List.mem_append_right _ member)
  cases fit with
  | vacant => exact .inl rfl
  | closed present' script own => exact absurd ⟨_, _, present', own⟩ apart
  | produced assignable value => exact absurd assignable apart
  | captured present' member' own value =>
    exact absurd (own ▸ member) (reserved.not_published_own present' member' present)
  | published present' member' value => exact .inr ⟨value, rfl⟩

end Fit

/-- All slots of modules hold what is in place for them. -/
def Fitting (s : Store κ) : Prop :=
  ∀ e environment, s.environment? e = some environment → ∀ i ∈ environment.slots, ∀ slot,
    s.slot? i = some slot → s.Fit i slot.content

/-- The slots of a module are there. -/
theorem Reserved.known (reserved : s.Reserved) (present : s.environment? e = some environment)
    (member : i ∈ environment.slots) : ∃ slot, s.slot? i = some slot := by
  rcases List.mem_append.mp member with own | other
  · obtain ⟨slot, there, _⟩ := reserved.untyped i ⟨e, environment, present, own⟩
    exact ⟨slot, there⟩
  · exact reserved.inside e environment i present other

/-- Each step leaves slots with what is in place for them. -/
theorem Fitting.moves (fitting : s.Fitting) (reserved : s.Reserved)
    (moves : Moves interpreter homes past s s')
    (kinds : ∀ e record environment, homes e record → s.environment? e = some environment →
      environment.kind = record.kind) : s'.Fitting := by
  intro e after present i member slot known
  cases before : s.environment? e with
  | some environment =>
    obtain ⟨entities, present'⟩ := moves.grows.environments e environment before
    cases present.symm.trans present'
    obtain ⟨slot', there⟩ := reserved.known before member
    obtain ⟨content, known', writes⟩ := moves.writes there
    cases known.symm.trans known'
    exact (fitting e environment before i member slot' there).writes writes moves.grows kinds
  | none =>
    rcases moves.fills_or_laid with ⟨e', names, slots, fills⟩ | ⟨laid, adopts⟩
    · obtain ⟨there, before', _⟩ := fills.environments e after present
      cases before.symm.trans before'
    rcases List.mem_append.mp member with own | other
    · obtain ⟨record, _, _, opens⟩ := adopts e after present before
      obtain ⟨name, held⟩ := Scope.exists_get?_of_mem_values opens.distinct own
      obtain ⟨content, known', begins⟩ := opens.slots name i held
      cases known.symm.trans known'
      cases begins with
      | declared => exact .produced ⟨e, after, present, own⟩ _
      | untouched => exact .vacant
    · rw [(laid.fresh e after present before).2 i other slot known]
      exact .vacant

/-- At every moment slots hold what is in place for them. -/
theorem Lineage.fitting {events : List (Store κ)} (lineage : Lineage interpreter homes events)
    (kinds : ∀ s ∈ events, ∀ e record environment, homes e record →
      s.environment? e = some environment → environment.kind = record.kind) :
    ∀ s ∈ events, s.Fitting := by
  refine lineage.invariant (fun e environment known => by cases known) fun past s s' onward fitting
    moves => ?_
  have told := onward.subset List.mem_cons_self
  exact fitting.moves (lineage.reserved s told) moves (kinds s told)

theorem Lineage.touches {events : List (Store κ)} (lineage : Lineage interpreter homes events) :
    events.Pairwise fun later earlier => earlier.Touches later := by
  refine lineage.pairwise (fun _ _ _ first second i slot known touched => ?_)
    fun _ _ _ _ moves => moves.touches
  obtain ⟨slot', known', touched'⟩ := first i slot known touched
  exact second i slot' known' touched'

/-- Every environment is that of a module. -/
theorem Lineage.homed {events : List (Store κ)} (lineage : Lineage interpreter homes events) :
    ∀ s ∈ events, ∀ e environment, s.environment? e = some environment → ∃ record, homes e record := by
  refine lineage.invariant (fun e environment known => by cases known) fun past s s' _ homed moves
    e after present => ?_
  cases before : s.environment? e with
  | some environment => exact homed e environment before
  | none =>
    rcases moves.fills_or_laid with ⟨e', names, slots, fills⟩ | ⟨_, adopts⟩
    · obtain ⟨there, before', _⟩ := fills.environments e after present
      cases before.symm.trans before'
    · obtain ⟨record, home, _⟩ := adopts e after present before
      exact ⟨record, home⟩

end Store
end MixedModules
