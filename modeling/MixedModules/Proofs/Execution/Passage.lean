import Mathlib.Data.List.Pairwise
import MixedModules.Proofs.Store.Conformance

/-! What code can do to a store on its way.

Code acts through operations only, so a relation that every operation respects holds
between the store in which a run starts and all stores that the run passes through,
whether it comes to an end or not. What is said of worlds instead of stores, their past
included, passes from one to the next in the same way. -/
namespace MixedModules

variable {κ σ α β : Type} {R : Store κ → Store κ → Prop}

/-- A relation between earlier and later stores that no operation breaks. -/
structure Store.Respected (R : Store κ → Store κ → Prop) : Prop where
  refl : ∀ s, R s s
  trans : ∀ s s' s'', R s s' → R s' s'' → R s s''
  operations : ∀ (o : Operation κ) s a s', o.perform s = .ok (a, s') → R s s'

theorem Store.respected_grows : Store.Respected (κ := κ) Store.Grows :=
  ⟨Store.Grows.refl, fun _ _ _ first second => first.trans second, fun _ _ _ _ => grows_perform⟩

namespace World

/-! ## Runs -/

/-- A relation between earlier and later worlds that nothing breaks that code does. -/
structure Passing (T : World κ σ → World κ σ → Prop) : Prop where
  refl : ∀ w, T w w
  trans : ∀ w w' w'', T w w' → T w' w'' → T w w''
  operate : ∀ (o : Operation κ) w a s, o.perform w.store = .ok (a, s) → T w (w.become s)
  keep : ∀ (w : World κ σ) memo, T w { w with memo }

/-- Wherever a run starts, its end is in a relation to it. -/
def Passes (T : World κ σ → World κ σ → Prop) (x : Run (World κ σ) α) : Prop :=
  ∀ w, T w (x w).2

/-- Calls that pass, whatever is called. -/
structure PassesCalls (T : World κ σ → World κ σ → Prop) (calls : Calls κ σ) : Prop where
  call : ∀ f arguments, Passes T (calls.call f arguments)
  invoke : ∀ f arguments, Passes T (calls.invoke f arguments)

section Passing

variable {T : World κ σ → World κ σ → Prop} (passing : Passing T) {calls : Calls κ σ}

include passing

theorem passes_pure (a : α) : Passes T (pure a : Run (World κ σ) α) := passing.refl

theorem passes_throw (e : EvalError) : Passes T (throw e : Run (World κ σ) α) := passing.refl

theorem passes_get : Passes T (get : Run (World κ σ) (World κ σ)) := passing.refl

theorem passes_liftM (result : Except EvalError α) :
    Passes T (liftM result : Run (World κ σ) α) := fun w => by
  rw [Run.liftM_apply]
  exact passing.refl w

omit passing in
theorem passes_change {step : Change κ α} (refl : ∀ w, T w w)
    (holds : ∀ w a s, step w.store = .ok (a, s) → T w (w.become s)) : Passes T (change step) := by
  intro w
  unfold change
  cases result : step w.store with
  | error e => exact refl w
  | ok pair => exact holds w pair.1 pair.2 result

/-- To look at the store is an operation. -/
theorem passes_reading (read : Store κ → Except EvalError α) :
    Passes T (reading read : Run (World κ σ) α) := by
  refine passes_change passing.refl fun w a s ran => ?_
  obtain ⟨_, rfl⟩ := Store.reading_eq_ok ran
  exact passing.operate (.describe .undefined) w _ w.store rfl

theorem passes_bind {x : Run (World κ σ) α} {next : α → Run (World κ σ) β} (first : Passes T x)
    (second : ∀ a, Passes T (next a)) : Passes T (x >>= next) := by
  intro w
  have here := first w
  rw [Run.bind_apply]
  rcases result : x w with ⟨_ | _ | a, w'⟩ <;> rw [result] at here
  · exact here
  · exact here
  · exact passing.trans _ _ _ here (second a w')

theorem passes_forM {xs : List α} {f : α → Run (World κ σ) Unit}
    (each : ∀ x ∈ xs, Passes T (f x)) : Passes T (xs.forM f) := by
  induction xs with
  | nil => exact passes_pure passing ()
  | cons x rest ih =>
    apply passes_bind passing (each x List.mem_cons_self)
    intro _
    exact ih fun y member => each y (List.mem_cons_of_mem x member)

theorem passes_grant (through : PassesCalls T calls) (r : Request κ σ) :
    Passes T (calls.grant r) := by
  cases r with
  | operate o => exact passes_change passing.refl (passing.operate o)
  | call f arguments => exact through.call f arguments
  | invoke f arguments => exact through.invoke f arguments
  | kept => exact passing.refl
  | keep memo => exact fun w => passing.keep w memo

/-- A run of a program passes, request by request. -/
theorem passes_run (through : PassesCalls T calls) (p : Program κ σ α) : Passes T (p.run calls) := by
  induction p with
  | done result => exact passes_liftM passing result
  | request r next ih =>
    have attempt : Passes T (calls.grant r).attempt := fun w => passes_grant passing through r w
    exact passes_bind passing attempt ih

/-- A check that comes before the rest. -/
private theorem passes_guard {check : Bool} {fault : TypeFault} {rest : Run (World κ σ) α}
    (through : Passes T rest) : Passes T (if check then do fail fault; rest else rest) := by
  cases check with
  | true => exact passes_bind passing (passes_throw passing (.type fault)) fun _ : PUnit => through
  | false => exact through

private theorem passes_requireHome (function : Function κ) (home : EnvironmentId) :
    Passes T (Calls.requireHome function home : Run (World κ σ) Unit) := by
  unfold Calls.requireHome
  apply passes_bind passing (passes_get passing)
  intro w
  split
  · exact passes_throw passing (.type _)
  · exact passes_pure passing ()

theorem passes_invokeOver (embedder : Embedder κ σ) {inner : Calls κ σ}
    (through : PassesCalls T inner) (f : FunctionId) (arguments : List Raw) :
    Passes T (Calls.invokeOver embedder inner f arguments) := by
  unfold Calls.invokeOver
  apply passes_bind passing (passes_reading passing _)
  intro function
  cases function.callable with
  | binary type code home =>
    apply passes_guard passing
    apply passes_bind passing (passes_requireHome passing function home)
    intro _
    apply passes_bind passing (passes_run passing through _)
    intro results
    exact passes_guard passing (passes_pure passing results)
  | adapter type target =>
    apply passes_guard passing
    apply passes_bind passing (through.call target _)
    intro result
    rcases type.results with _ | ⟨single, _ | ⟨next, rest⟩⟩
    · exact passes_pure passing []
    · apply passes_bind passing (passes_liftM passing _)
      intro raw
      exact passes_pure passing [raw]
    · exact passes_throw passing (.type _)
  | script => exact passes_throw passing (.type _)
  | host => exact passes_throw passing (.type _)

theorem passes_callTyped (embedder : Embedder κ σ) {inner : Calls κ σ}
    (through : PassesCalls T inner) (f : FunctionId) (name : String) (type : FuncType)
    (arguments : List Value) : Passes T (Calls.callTyped embedder inner f name type arguments) := by
  unfold Calls.callTyped
  apply passes_bind passing (passes_liftM passing _)
  intro raws
  apply passes_bind passing (passes_invokeOver passing embedder through f raws)
  intro results
  rcases results with _ | ⟨single, _ | ⟨next, rest⟩⟩
  · exact passes_pure passing _
  · exact passes_pure passing _
  · exact passes_throw passing (.type _)

theorem passes_callOver (embedder : Embedder κ σ) {inner : Calls κ σ}
    (through : PassesCalls T inner) (f : FunctionId) (arguments : List Value) :
    Passes T (Calls.callOver embedder inner f arguments) := by
  unfold Calls.callOver
  apply passes_bind passing (passes_reading passing _)
  intro function
  cases function.callable with
  | script code home =>
    apply passes_bind passing (passes_requireHome passing function home)
    intro _
    exact passes_run passing through _
  | host code => exact passes_run passing through _
  | binary type => exact passes_callTyped passing embedder through f function.name type arguments
  | adapter type => exact passes_callTyped passing embedder through f function.name type arguments

/-- Calls pass, however deep they nest. -/
theorem passes_ofDepth (embedder : Embedder κ σ) (depth : Nat) :
    PassesCalls T (Calls.ofDepth embedder depth) := by
  induction depth with
  | zero => exact ⟨fun _ _ => passing.refl, fun _ _ => passing.refl⟩
  | succ depth ih =>
    exact ⟨passes_callOver passing embedder ih, passes_invokeOver passing embedder ih⟩

end Passing

/-! ## Stores on the way -/

/-- The present store is the last that there has been, and each follows on those before. -/
structure Ordered (R : Store κ → Store κ → Prop) (w : World κ σ) : Prop where
  latest : w.past.events.head? = some w.store
  steps : w.past.events.Pairwise fun later earlier => R earlier later

/-- One world comes out of another, and what it passed through lies between. -/
structure Leads (R : Store κ → Store κ → Prop) (w w' : World κ σ) : Prop where
  present : R w.store w'.store
  past : ∀ s ∈ w'.past.events, s ∈ w.past.events ∨ R w.store s ∧ R s w'.store
  told : w.store ∈ w.past.events → w'.store ∈ w'.past.events
  since : w.past.events <:+ w'.past.events
  ordered : w.Ordered R → w'.Ordered R

/-- Wherever a run starts, it leads on. -/
def Through (R : Store κ → Store κ → Prop) (x : Run (World κ σ) α) : Prop :=
  Passes (Leads R) x

section Steps

variable (respected : Store.Respected R) {w w' w'' : World κ σ}

include respected

theorem Leads.refl (w : World κ σ) : Leads R w w :=
  ⟨respected.refl _, fun _ told => .inl told, fun told => told, List.suffix_refl _,
    fun ordered => ordered⟩

theorem Leads.trans (first : Leads R w w') (second : Leads R w' w'') : Leads R w w'' := by
  refine ⟨respected.trans _ _ _ first.present second.present, fun s told => ?_,
    fun told => second.told (first.told told), first.since.trans second.since,
    fun ordered => second.ordered (first.ordered ordered)⟩
  rcases second.past s told with earlier | ⟨after, before⟩
  · exact (first.past s earlier).imp_right fun between =>
      ⟨between.1, respected.trans _ _ _ between.2 second.present⟩
  · exact .inr ⟨respected.trans _ _ _ first.present after, before⟩

/-- Whatever store there has been leads on to all later ones. -/
theorem Ordered.onward {s t : Store κ} {past : List (Store κ)} (ordered : w.Ordered R)
    (onward : s :: past <:+ w.past.events) (told : t ∈ s :: past) : R t s :=
  (ordered.steps.sublist onward.sublist).rel_head_of_rel_head_head told (respected.refl s)

/-- In particular it leads on to the present one. -/
theorem Ordered.present {s : Store κ} (ordered : w.Ordered R) (told : s ∈ w.past.events) :
    R s w.store := by
  obtain ⟨older, parts⟩ := List.head?_eq_some_iff.mp ordered.latest
  exact ordered.onward respected (parts ▸ List.suffix_refl _) (parts ▸ told)

theorem Leads.become {store : Store κ} (step : R w.store store) : Leads R w (w.become store) := by
  have events : (w.become store).past.events = store :: w.past.events := Chronicle.events_add _ _
  refine ⟨step, fun s told => ?_, fun _ => ?_, ?_, fun ordered => ⟨?_, ?_⟩⟩
  · rw [events, List.mem_cons] at told
    rcases told with rfl | told
    · exact .inr ⟨step, respected.refl _⟩
    · exact .inl told
  · rw [events]
    exact List.mem_cons_self
  · rw [events]
    exact List.suffix_cons _ _
  · rw [events]
    rfl
  · rw [events, List.pairwise_cons]
    refine ⟨fun s told => ?_, ordered.steps⟩
    exact respected.trans _ _ _ (ordered.present respected told) step

theorem leads_change {step : Change κ α}
    (holds : ∀ a s, step w.store = .ok (a, s) → R w.store s) : Leads R w (change step w).2 := by
  unfold change
  cases result : step w.store with
  | error e => exact .refl respected w
  | ok pair =>
    obtain ⟨a, s⟩ := pair
    exact .become respected (holds a s result)

theorem leads_bind {x : Run (World κ σ) α} {next : α → Run (World κ σ) β}
    (first : Leads R w (x w).2)
    (second : ∀ a w', x w = (some (.ok a), w') → Leads R w' (next a w').2) :
    Leads R w ((x >>= next) w).2 := by
  rw [Run.bind_apply]
  rcases result : x w with ⟨_ | _ | a, w'⟩ <;> rw [result] at first
  · exact first
  · exact first
  · exact first.trans respected (second a w' result)

/-- A step that leads on from anywhere, and what follows it there. -/
theorem leads_next {x next : Run (World κ σ) Unit} (before : Leads R w w') (first : Through R x)
    (second : ∀ w'', Leads R w w'' → Leads R w'' (next w'').2) :
    Leads R w' ((do x; next : Run (World κ σ) Unit) w').2 := by
  apply leads_bind respected (first w')
  intro _ w'' ran
  have here := first w'
  rw [ran] at here
  exact second w'' (before.trans respected here)

/-- What every operation respects passes from world to world. -/
theorem passing_leads : Passing (Leads (σ := σ) R) where
  refl := .refl respected
  trans _ _ _ first second := first.trans respected second
  operate o w a s ran := .become respected (respected.operations o w.store a s ran)
  keep _ _ := ⟨respected.refl _, fun _ told => .inl told, fun told => told, List.suffix_refl _,
    fun ordered => ⟨ordered.latest, ordered.steps⟩⟩

theorem through_pure (a : α) : Through R (pure a : Run (World κ σ) α) :=
  passes_pure (passing_leads respected) a

theorem through_throw (e : EvalError) : Through R (throw e : Run (World κ σ) α) :=
  passes_throw (passing_leads respected) e

theorem through_reading (read : Store κ → Except EvalError α) :
    Through R (reading read : Run (World κ σ) α) := passes_reading (passing_leads respected) read

omit respected in
/-- A reading leaves the store and tells of it. -/
theorem reading_eq_ok {read : Store κ → Except EvalError α} {a : α}
    (ran : reading read w = (some (.ok a), w')) : read w.store = .ok a ∧ w'.store = w.store := by
  unfold reading change at ran
  cases result : Operation.reading read w.store with
  | error e =>
    rw [result] at ran
    cases ran
  | ok pair =>
    obtain ⟨found, s⟩ := pair
    rw [result] at ran
    cases ran
    exact Store.reading_eq_ok result

theorem through_bind {x : Run (World κ σ) α} {next : α → Run (World κ σ) β} (first : Through R x)
    (second : ∀ a, Through R (next a)) : Through R (x >>= next) :=
  passes_bind (passing_leads respected) first second

/-- Steps one after the other, each taken where the steps before it lead. -/
theorem leads_forM {xs : List α} {f : α → Run (World κ σ) Unit}
    (each : ∀ x ∈ xs, ∀ w', Leads R w w' → Leads R w' (f x w').2) : Leads R w (xs.forM f w).2 := by
  have all : ∀ w', Leads R w w' → Leads R w' (xs.forM f w').2 := by
    induction xs with
    | nil => exact fun w' _ => .refl respected w'
    | cons x rest ih =>
      intro w' before
      apply leads_bind respected (each x List.mem_cons_self w' before)
      intro _ w'' ran
      have here := each x List.mem_cons_self w' before
      rw [ran] at here
      exact ih (fun y member => each y (List.mem_cons_of_mem x member)) w''
        (before.trans respected here)
  exact all w (.refl respected w)

theorem through_forM {xs : List α} {f : α → Run (World κ σ) Unit}
    (each : ∀ x ∈ xs, Through R (f x)) : Through R (xs.forM f) :=
  passes_forM (passing_leads respected) each

/-- Calls lead on, however deep they nest. -/
theorem through_ofDepth (embedder : Embedder κ σ) (depth : Nat) :
    PassesCalls (Leads R) (Calls.ofDepth embedder depth) :=
  passes_ofDepth (passing_leads respected) embedder depth

/-- A run of a program leads on, request by request. -/
theorem through_run {calls : Calls κ σ} (through : PassesCalls (Leads R) calls) (p : Program κ σ α) :
    Through R (p.run calls) := passes_run (passing_leads respected) through p

end Steps
end World

/-- A program of one operation comes to what the operation does. -/
theorem Program.run_operate (calls : Calls κ σ) (o : Operation κ) :
    (Program.operate o : Program κ σ o.Answer).run calls = World.change o.perform := by
  funext w
  unfold Program.operate Program.ask
  simp only [Program.run, Calls.grant]
  rw [Run.bind_apply]
  unfold Run.attempt World.change
  cases result : o.perform w.store with
  | error e => rfl
  | ok pair => rfl

end MixedModules
