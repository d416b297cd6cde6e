import MixedModules.Proofs.Evaluation.Failure
import MixedModules.Proofs.Evaluation.Filling
import MixedModules.Proofs.Evaluation.Simulation

/-! What a completed module has gone through.

A module is recorded as completed when its run has succeeded, and for nothing else. So
each of its imports was observed at some moment, and what a binary module exports was
published at another. The past of the world tells of both. -/
namespace MixedModules

variable {κ σ α β : Type} {e : EnvironmentId} {environment : Environment} {record : Record κ}

namespace Store

/-- The module of `e` observes an import. -/
def Observes (e : EnvironmentId) (b : ImportBinding) (s s' : Store κ) : Prop :=
  ∃ environment, s.environment? e = some environment ∧ b ∈ environment.imports.values ∧
    observeImport e environment b s = .ok ((), s')

/-- The module of `e` gives its exports their values. -/
def Publishes (e : EnvironmentId) (record : Record κ) (s s' : Store κ) : Prop :=
  publishAll e record.exports s = .ok ((), s')

end Store

namespace World

variable {w w' : World κ σ} {told : World κ σ → Prop}

/-- A step was taken in the past of a world, from one store to the next. `since` are the
stores that there have been from then on, the latest first. -/
def Took (w : World κ σ) (step : Store κ → Store κ → Prop) (since : List (Store κ)) : Prop :=
  ∃ s s' later past, step s s' ∧ since = later ++ [s'] ∧ w.past.events = since ++ s :: past

/-- The present store is one of those since. -/
theorem Took.latest {R step : Store κ → Store κ → Prop} {since : List (Store κ)}
    (took : w.Took step since) (ordered : w.Ordered R) : w.store ∈ since := by
  obtain ⟨s, s', later, past, _, rfl, events⟩ := took
  have head := ordered.latest
  rw [events] at head
  cases later with
  | nil =>
    cases head
    exact List.mem_cons_self
  | cons first rest =>
    cases head
    exact List.mem_append_left _ List.mem_cons_self

/-- The imports of the module of `e` have been observed. -/
def Passed (e : EnvironmentId) (w : World κ σ) : Prop :=
  ∃ s ∈ w.past.events, ∃ environment, s.environment? e = some environment ∧
    ∀ b ∈ environment.imports.values, ∃ since, w.Took (Store.Observes e b) since

/-- What a module has gone through when it is completed. -/
structure Finished (e : EnvironmentId) (record : Record κ) (w : World κ σ) : Prop where
  passed : w.Passed e
  published : record.kind = .binary → ∃ since, w.Took (Store.Publishes e record) since

/-- What the past tells once it tells for good. -/
def Lasts (told : World κ σ → Prop) : Prop :=
  ∀ w w', w.past.events <:+ w'.past.events → told w → told w'

theorem lasts_took (step : Store κ → Store κ → Prop) :
    Lasts fun w : World κ σ => ∃ since, w.Took step since := by
  rintro w w' ⟨more, same⟩ ⟨_, s, s', later, past, taken, rfl, events⟩
  refine ⟨more ++ (later ++ [s']), s, s', more ++ later, past, taken, by simp, ?_⟩
  rw [← same, events]
  simp

theorem lasts_passed (e : EnvironmentId) : Lasts (Passed (κ := κ) (σ := σ) e) := by
  rintro w w' onward ⟨s, told, environment, known, observed⟩
  exact ⟨s, onward.subset told, environment, known, fun b member =>
    lasts_took _ w w' onward (observed b member)⟩

theorem lasts_finished (e : EnvironmentId) (record : Record κ) :
    Lasts (Finished (σ := σ) e record) := fun w w' onward finished =>
  ⟨lasts_passed e w w' onward finished.passed, fun binary =>
    lasts_took _ w w' onward (finished.published binary)⟩

/-! ## What a run tells when it succeeds -/

/-- Whenever a run for the module of `e` succeeds, the past tells something. -/
def Tells (e : EnvironmentId) (environment : Environment) (told : World κ σ → Prop)
    (x : Run (World κ σ) α) : Prop :=
  ∀ w a w', w.Ordered Store.Grows → w.store.Shows e environment → x w = (some (.ok a), w') → told w'

namespace Tells

/-- Something comes before what tells. -/
theorem after {x : Run (World κ σ) α} {next : α → Run (World κ σ) β}
    (first : Through Store.Grows x) (second : ∀ a, Tells e environment told (next a)) :
    Tells e environment told (x >>= next) := by
  intro w b w' ordered shows ran
  obtain ⟨a, w₁, result, ran⟩ := Run.bind_eq_ok ran
  have here := first w
  rw [result] at here
  exact second a w₁ b w' (here.ordered ordered) (shows.kept here.present) ran

/-- Something comes after what tells. -/
theorem before {x : Run (World κ σ) α} {next : α → Run (World κ σ) β} (lasts : Lasts told)
    (first : Tells e environment told x) (second : ∀ a, Through Store.Grows (next a)) :
    Tells e environment told (x >>= next) := by
  intro w b w' ordered shows ran
  obtain ⟨a, w₁, result, ran⟩ := Run.bind_eq_ok ran
  have later := (second a w₁).since
  rw [ran] at later
  exact lasts w₁ w' later (first w a w₁ ordered shows result)

theorem forM {xs : List α} {f : α → Run (World κ σ) Unit} {x : α} (lasts : Lasts told)
    (through : ∀ x ∈ xs, Through Store.Grows (f x)) (member : x ∈ xs)
    (here : Tells e environment told (f x)) : Tells e environment told (xs.forM f) := by
  induction xs with
  | nil => cases member
  | cons first rest ih =>
    have others : Through Store.Grows (rest.forM f) :=
      through_forM Store.respected_grows fun y later => through y (List.mem_cons_of_mem first later)
    rcases List.mem_cons.mp member with rfl | later
    · exact .before lasts here fun _ => others
    · exact .after (through first List.mem_cons_self) fun _ =>
        ih (fun y member => through y (List.mem_cons_of_mem first member)) later

/-- A change tells of itself. -/
theorem change {step : Change κ Unit} {shape : Store κ → Store κ → Prop}
    (holds : ∀ s s', s.Shows e environment → step s = .ok ((), s') → shape s s') :
    Tells (σ := σ) e environment (fun w => ∃ since, w.Took shape since) (World.change step) := by
  intro w a w' ordered shows ran
  unfold World.change at ran
  cases result : step w.store with
  | error _ =>
    rw [result] at ran
    cases ran
  | ok pair =>
    obtain ⟨_, s'⟩ := pair
    rw [result] at ran
    cases ran
    obtain ⟨past, latest⟩ := List.head?_eq_some_iff.mp ordered.latest
    refine ⟨[s'], w.store, s', [], past, holds _ _ shows result, rfl, ?_⟩
    rw [World.become, Chronicle.events_add, latest]
    rfl

end Tells

/-! ## The whole module -/

section Module

/-- Changes that each leave the environment of the module where it is. -/
theorem through_homely {xs : List α} {step : α → Change κ Unit}
    (homely : ∀ x, Store.Homely e (step x)) :
    Through Store.Grows (xs.forM fun x => World.change (step x) : Run (World κ σ) Unit) :=
  through_forM Store.respected_grows fun x _ _ =>
    leads_change Store.respected_grows fun _ s ran => (homely x).grows _ s ran

theorem through_observeImports (e : EnvironmentId) (environment : Environment) :
    Through Store.Grows (observeImports e environment : Run (World κ σ) Unit) :=
  through_homely (Store.homely_observeImport environment)

theorem tells_observeImports {b : ImportBinding} (member : b ∈ environment.imports.values) :
    Tells e environment (fun w : World κ σ => ∃ since, w.Took (Store.Observes e b) since)
      (observeImports e environment) := by
  refine .forM (lasts_took _) (fun b _ w => leads_change Store.respected_grows fun _ s ran =>
    (Store.homely_observeImport environment b).grows _ s ran) member (.change ?_)
  rintro s s' ⟨entities, known⟩ ran
  exact ⟨_, known, member, ran⟩

variable (interpreter : Interpreter κ σ)

theorem tells_instantiate {identity : String} {body : BinaryBody κ} :
    Tells e environment (fun w : World κ σ => ∃ since, w.Took (Store.Publishes e record) since)
      (instantiate interpreter.calls e identity record body) := by
  have elements (segment : ElementSegment) : Homely interpreter e
      (applyElements e identity segment : Run (World κ σ) Unit) := homely_applyElements identity segment
  have start (name : String) : Homely interpreter e
      ((Program.invokeName e name []).run interpreter.calls) := homely_invokeName name []
  have last : Tells e environment (fun w : World κ σ => ∃ since, w.Took (Store.Publishes e record) since)
      (World.change (Store.publishAll e record.exports)) := .change fun _ _ _ ran => ran
  unfold instantiate
  refine .after (through_homely Store.homely_defineGlobal) fun _ => ?_
  refine .after (through_homely Store.homely_defineMemory) fun _ => ?_
  refine .after (through_homely Store.homely_defineTable) fun _ => ?_
  refine .after (through_homely Store.homely_defineFunction) fun _ => ?_
  refine .after (through_homely (Store.homely_applyData identity)) fun _ => ?_
  refine .after (through_forM Store.respected_grows fun segment _ => (elements segment).through)
    fun _ => ?_
  cases body.start with
  | none => exact last
  | some name => exact .after (start name).through fun _ => last

/-- The last thing that a binary module does is to publish its exports. -/
theorem tells_publishes (binary : record.kind = .binary) :
    Tells e environment (fun w : World κ σ => ∃ since, w.Took (Store.Publishes e record) since)
      (runModule interpreter e record) := by
  unfold runModule
  refine .after (through_reading Store.respected_grows _) fun there => ?_
  refine .after (through_observeImports e there) fun _ => ?_
  cases shape : record.body with
  | script code => simp [Record.kind, shape] at binary
  | binary body => exact tells_instantiate interpreter

/-- A module whose run has succeeded has gone through all of it. -/
theorem finished_of_runModule (ordered : w.Ordered Store.Grows)
    (ran : runModule interpreter e record w = (some (.ok ()), w')) : w'.Finished e record := by
  have whole : Homely interpreter e (runModule interpreter e record) := homely_runModule record
  have onward := whole.through w
  rw [ran] at onward
  obtain ⟨past, latest⟩ := List.head?_eq_some_iff.mp ordered.latest
  have parts := ran
  unfold runModule at parts
  obtain ⟨environment, w₁, result, parts⟩ := Run.bind_eq_ok parts
  have here := through_reading (σ := σ) Store.respected_grows (fun s : Store κ => s.environment e) w
  rw [result] at here
  obtain ⟨known, same⟩ := reading_eq_ok result
  have known := Store.environment_eq_ok.mp known
  refine ⟨⟨w.store, onward.since.subset (by simp [latest]), environment, known, fun b member => ?_⟩,
    fun binary => tells_publishes interpreter binary w () w' ordered ⟨environment.entities, known⟩ ran⟩
  refine Tells.before (lasts_took _) (tells_observeImports member) (fun _ => ?_) w₁ () w'
    (here.ordered ordered) ⟨environment.entities, same ▸ known⟩ parts
  cases record.body with
  | script code =>
    have zones : Homely interpreter e (enterDeadZones (κ := κ) environment) :=
      homely_enterDeadZones environment
    refine through_bind Store.respected_grows zones.through fun _ => ?_
    cases code with
    | none => exact through_pure Store.respected_grows ()
    | some code =>
      have body : Homely interpreter e _ := homely_body code
      exact body.through
  | binary body =>
    have made : Homely interpreter e _ := homely_instantiate environment.identity record body
    exact made.through

end Module
end World

/-! ## The traversal -/

namespace Machine

variable {interpreter : Interpreter κ σ} {machine : Machine κ σ}

/-- Whatever is recorded as completed has gone through all of its evaluation. -/
structure Accounted (machine : Machine κ σ) : Prop where
  ordered : machine.world.Ordered Store.Grows
  finished : ∀ m i e, machine.registry.get? m = some i → i.progress = .completed →
    i.environment = some e → machine.world.Finished e i.record

/-- What keeps the account, whatever comes of it. -/
def Accounts (x : Run (Machine κ σ) α) : Prop :=
  ∀ machine, Accounted machine → Accounted (x machine).2

/-- No module is completed by a change of the registry. -/
def CompletesNone (change : Registry κ → Registry κ) : Prop :=
  ∀ r m i', (change r).get? m = some i' → i'.progress = .completed → ∃ i, r.get? m = some i ∧
    i.progress = .completed ∧ i.environment = i'.environment ∧ i.record = i'.record

theorem Accounted.modify {change : Registry κ → Registry κ} (accounted : Accounted machine)
    (none : CompletesNone change) :
    Accounted { machine with registry := change machine.registry } := by
  refine ⟨accounted.ordered, fun m i' e known completed home => ?_⟩
  obtain ⟨i, before, completed, environment, record⟩ := none machine.registry m i' known completed
  rw [← record]
  exact accounted.finished m i e before completed (environment.trans home)

theorem completesNone_modify {m : ModuleId} {change : Instance κ → Instance κ}
    (kept : ∀ i, (change i).progress = .completed → i.progress = .completed ∧
      i.environment = (change i).environment ∧ i.record = (change i).record) :
    CompletesNone fun r => r.modify m change := by
  intro r x i' known completed
  simp only [Registry.get?_modify] at known
  split at known
  · obtain ⟨i, before, rfl⟩ := Option.map_eq_some_iff.mp known
    exact ⟨i, before, kept i completed⟩
  · exact ⟨i', known, completed, rfl, rfl⟩

theorem completesNone_setProgress (m : ModuleId) {progress : Progress}
    (other : progress ≠ .completed) : CompletesNone (κ := κ) fun r => r.setProgress m progress :=
  completesNone_modify fun _ completed => absurd completed other

theorem completesNone_release (c : ComponentId) : CompletesNone (κ := κ) fun r => r.release c := by
  intro r m i known completed
  refine ⟨i, ?_, completed, rfl, rfl⟩
  unfold Registry.release at known
  cases held : r.component? c <;> simpa [held] using known

theorem completesNone_sweep (c : ComponentId) (e : EvalError) :
    CompletesNone (κ := κ) fun r => r.sweep c e := by
  intro r m i' known completed
  unfold Registry.sweep at known
  cases held : r.component? c with
  | none => exact ⟨i', by simpa [held] using known, completed, rfl, rfl⟩
  | some component =>
    simp only [held, Registry.get?_fail] at known
    split at known
    · obtain ⟨i, before, rfl⟩ := Option.map_eq_some_iff.mp known
      by_cases finished : i.progress = .completed
      · exact ⟨i, before, finished, by simp [finished], by simp [finished]⟩
      · simp [finished] at completed
    · exact ⟨i', known, completed, rfl, rfl⟩

namespace Accounts

theorem pure (a : α) : Accounts (pure a : Run (Machine κ σ) α) := fun _ accounted => accounted

theorem throw (e : EvalError) : Accounts (throw e : Run (Machine κ σ) α) :=
  fun _ accounted => accounted

theorem blocked : Accounts (Run.blocked : Run (Machine κ σ) α) := fun _ accounted => accounted

theorem liftM (result : Except EvalError α) : Accounts (liftM result : Run (Machine κ σ) α) := by
  intro machine accounted
  rw [Run.liftM_apply]
  exact accounted

theorem bind {x : Run (Machine κ σ) α} {next : α → Run (Machine κ σ) β} (first : Accounts x)
    (second : ∀ a, Accounts (next a)) : Accounts (x >>= next) := by
  intro machine accounted
  rw [Run.bind_apply]
  have here := first machine accounted
  rcases result : x machine with ⟨_ | _ | a, machine'⟩ <;> rw [result] at here
  · exact here
  · exact here
  · exact second a machine' here

theorem attempt {x : Run (Machine κ σ) α} (accounts : Accounts x) : Accounts x.attempt :=
  fun machine accounted => accounts machine accounted

theorem forM {xs : List α} {f : α → Run (Machine κ σ) Unit} (each : ∀ x, Accounts (f x)) :
    Accounts (xs.forM f) := by
  induction xs with
  | nil => exact .pure ()
  | cons x rest ih => exact (each x).bind fun _ => ih

theorem modifyRegistry {change : Registry κ → Registry κ} (none : CompletesNone change) :
    Accounts (σ := σ) (Machine.modifyRegistry change) :=
  fun _ accounted => accounted.modify none

theorem instanceOf (m : ModuleId) : Accounts (σ := σ) (κ := κ) (Machine.instanceOf m) := by
  intro machine accounted
  unfold Machine.instanceOf
  rw [Run.bind_apply, Run.get_apply]
  cases known : machine.registry.get? m <;> simp only [known] <;> exact accounted

theorem acquire (traversal : Nat) (identity : String) (c : ComponentId) :
    Accounts (σ := σ) (κ := κ) (Machine.acquire traversal identity c) := by
  intro machine accounted
  unfold Machine.acquire
  rw [Run.bind_apply, Run.get_apply]
  cases held : machine.registry.component? c with
  | none =>
    simp only [held]
    exact accounted
  | some component =>
    simp only [held]
    exact ⟨accounted.ordered, accounted.finished⟩

end Accounts

/-- A module is entered. If its run succeeds it has gone through all of it. -/
theorem execute_accounts (accounted : Accounted machine) (m : ModuleId)
    {outcome : Option (Except EvalError Unit)} {after : Machine κ σ}
    (ran : execute interpreter m machine = (outcome, after)) :
    Accounted after ∧ (outcome = some (.ok ()) → ∀ i e, after.registry.get? m = some i →
      i.environment = some e → after.world.Finished e i.record) := by
  obtain ⟨r, w⟩ := machine
  cases known : r.get? m with
  | none =>
    unfold execute instanceOf at ran
    rw [Run.bind_apply, Run.bind_apply, Run.get_apply] at ran
    simp only [known] at ran
    cases ran
    exact ⟨accounted, fun never => by cases never⟩
  | some i =>
    cases home : i.environment with
    | none =>
      unfold execute at ran
      rw [Run.bind_apply, instanceOf_apply known] at ran
      simp only [home] at ran
      cases ran
      exact ⟨accounted, fun never => by cases never⟩
    | some e =>
      rw [execute_apply known (by simp [Instance.isLinked, home])] at ran
      cases ran
      have program_eq : program interpreter r m = World.runModule interpreter e i.record := by
        unfold program
        simp only [known, home]
      rw [program_eq]
      have whole : World.Homely interpreter e (World.runModule interpreter e i.record) :=
        World.homely_runModule i.record
      have onward := whole.through w
      refine ⟨⟨onward.ordered accounted.ordered, fun x j e' held completed there => ?_⟩,
        fun succeeds j e' held there => ?_⟩
      · exact World.lasts_finished e' j.record w _ onward.since
          (accounted.finished x j e' held completed there)
      · have same : r.get? m = some j := held
        cases known.symm.trans same
        cases home.symm.trans there
        exact World.finished_of_runModule interpreter accounted.ordered (Prod.ext succeeds rfl)

theorem Accounts.evaluateModule {visit : ModuleId → Run (Machine κ σ) Unit} (m : ModuleId)
    (visits : ∀ target, Accounts (visit target)) :
    Accounts (evaluateModule interpreter visit m) := by
  intro machine accounted
  obtain ⟨r, w⟩ := machine
  have begun : Accounted (⟨r.setProgress m .inProgress, w⟩ : Machine κ σ) :=
    accounted.modify (completesNone_setProgress m (by simp))
  cases known : r.get? m with
  | none =>
    have absent : (r.setProgress m .inProgress).get? m = none := by
      rw [Registry.setProgress, Registry.get?_modify, if_pos rfl, known]
      rfl
    unfold Machine.evaluateModule Machine.instanceOf
    rw [Run.bind_apply, modifyRegistry_apply]
    simp only
    rw [Run.bind_apply, Run.bind_apply, Run.get_apply]
    simp only [absent]
    exact begun
  | some i =>
    rw [evaluateModule_apply visit known]
    have targets : Accounts (i.targets.forM visit) := .forM visits
    have below := targets _ begun
    simp only [Run.bind_apply]
    rcases result : i.targets.forM visit ⟨r.setProgress m .inProgress, w⟩ with
      ⟨_ | e | _, between⟩ <;> rw [result] at below
    · exact below
    · exact below.modify (completesNone_setProgress m (by simp))
    · rcases ran : execute interpreter m between with ⟨outcome, after⟩
      obtain ⟨kept, finished⟩ := execute_accounts below m ran
      simp only [ran]
      rcases outcome with _ | e | _
      · exact kept
      · exact kept.modify (completesNone_setProgress m (by simp))
      -- Here the module is recorded as completed, after its run has succeeded.
      · refine ⟨kept.ordered, fun x j e held completed home => ?_⟩
        have held : (after.registry.setProgress m .completed).get? x = some j := held
        rw [Registry.setProgress, Registry.get?_modify] at held
        split at held
        · next same =>
          subst same
          obtain ⟨before, known, rfl⟩ := Option.map_eq_some_iff.mp held
          exact finished rfl before e known home
        · exact kept.finished x j e held completed home

/-- A traversal keeps the account. -/
theorem Accounts.visit (traversal depth : Nat) (m : ModuleId) :
    Accounts (visit interpreter traversal depth m) := by
  induction depth generalizing m with
  | zero => exact .blocked
  | succ depth ih =>
    unfold Machine.visit
    refine (Accounts.instanceOf m).bind fun i => ?_
    cases i.component with
    | none => exact .throw _
    | some c =>
      refine (Accounts.acquire traversal i.identity c).bind fun acquired => ?_
      cases acquired with
      | blocked => exact .blocked
      | released =>
        refine (Accounts.instanceOf m).bind fun now => ?_
        cases now.progress with
        | errored e => exact .throw e
        | notStarted | inProgress | completed => exact .pure ()
      | reentered =>
        refine (Accounts.instanceOf m).bind fun now => ?_
        cases now.progress with
        | notStarted => exact .evaluateModule m ih
        | errored e => exact .throw e
        | inProgress | completed => exact .pure ()
      | root =>
        refine (Accounts.attempt (.evaluateModule m ih)).bind fun result => ?_
        have closes : Accounts (σ := σ) (κ := κ) (Machine.modifyRegistry fun r => r.release c) :=
          .modifyRegistry (completesNone_release c)
        cases result with
        | error e =>
          refine (Accounts.modifyRegistry (completesNone_sweep c e)).bind fun _ => ?_
          exact closes.bind fun _ => .liftM _
        | ok _ => exact closes.bind fun _ => .liftM _

end Machine
end MixedModules
