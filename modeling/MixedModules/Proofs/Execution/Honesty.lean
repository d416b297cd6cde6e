import MixedModules.Proofs.Execution.Passage
import MixedModules.Proofs.Store.Genuine

/-! Code that makes up no handles.

A handle is a place, and nothing but honesty keeps code from naming a place that it was never
told. Honest code hands over only what it was handed: its arguments, what its requests were
answered, and what its embedder kept. Where all code is honest, nothing ever refers to what
is not there. -/
namespace MixedModules

variable {κ σ α β : Type}

namespace Request

/-- The values that a request hands over, where the embedder's memo carries values itself. -/
def hands (carries : σ → List Value) : Request κ σ → List Value
  | operate o => o.hands
  | call f arguments => .function f :: arguments
  | invoke f _ => [.function f]
  | kept => []
  | keep memo => carries memo

/-- The values that a request answers. -/
def gives (carries : σ → List Value) : (r : Request κ σ) → r.Answer → List Value
  | operate o, answer => o.gives answer
  | call .., value => [value]
  | invoke .., _ => []
  | kept, memo => carries memo
  | keep _, _ => []

end Request

/-- A program that hands over only what it knows, and ends with what it knows. It comes to know
what its requests are answered. -/
def Program.Honest (carries : σ → List Value) (answers : α → List Value) :
    (known : Value → Prop) → Program κ σ α → Prop
  | known, .done result => ∀ a, result = .ok a → ∀ v ∈ answers a, known v
  | known, .request r next => (∀ v ∈ r.hands carries, known v) ∧ ∀ answer,
      (next answer).Honest carries answers fun v =>
        known v ∨ ∃ a, answer = .ok a ∧ v ∈ r.gives carries a

/-- A value that anyone can name. -/
def Value.Primitive (v : Value) : Prop := v.bindingKind = .value

/-- An embedder whose code begins with nothing but its arguments. -/
structure Embedder.Honest (carries : σ → List Value) (embedder : Embedder κ σ) : Prop where
  body : ∀ code home, (embedder.body code home).Honest carries (fun _ => []) Value.Primitive
  script : ∀ code home arguments, (embedder.script code home arguments).Honest carries
    (fun v => [v]) fun v => v.Primitive ∨ v ∈ arguments
  binary : ∀ code home arguments, (embedder.binary code home arguments).Honest carries
    (fun _ => []) Value.Primitive

namespace World

variable {carries : σ → List Value} {answers : α → List Value} {answers' : β → List Value}
  {w : World κ σ}

/-- Nothing refers to what is not there, nor has there been anything that did. -/
structure Genuine (carries : σ → List Value) (w : World κ σ) : Prop where
  present : w.store.Genuine
  past : ∀ s ∈ w.past.events, s.Genuine
  memo : ∀ v ∈ carries w.memo, w.store.Has v

theorem Genuine.become {s : Store κ} (genuine : w.Genuine carries) (keeps : w.store.Keeps s)
    (new : s.Genuine) : (w.become s).Genuine carries where
  present := new
  past s told := by
    rw [World.become, Chronicle.events_add] at told
    rcases List.mem_cons.mp told with rfl | before
    · exact new
    · exact genuine.past s before
  memo v carried := (genuine.memo v carried).kept keeps

/-- Where a run ends, still nothing refers to what is not there, and what it answers is there. -/
structure Deals (carries : σ → List Value) (answers : α → List Value) (x : Run (World κ σ) α)
    (w : World κ σ) : Prop where
  genuine : (x w).2.Genuine carries
  keeps : w.store.Keeps (x w).2.store
  answered : ∀ a, (x w).1 = some (.ok a) → ∀ v ∈ answers a, (x w).2.store.Has v

section Steps

variable (genuine : w.Genuine carries)

include genuine

theorem deals_pure {a : α} (has : ∀ v ∈ answers a, w.store.Has v) :
    Deals carries answers (pure a) w :=
  ⟨genuine, .refl _, fun _ ended => by cases ended; exact has⟩

theorem deals_throw (e : EvalError) : Deals carries answers (throw e) w :=
  ⟨genuine, .refl _, nofun⟩

theorem deals_liftM {result : Except EvalError α}
    (has : ∀ a, result = .ok a → ∀ v ∈ answers a, w.store.Has v) :
    Deals carries answers (liftM result : Run (World κ σ) α) w := by
  have ran := Run.liftM_apply w result
  refine ⟨?_, ?_, fun a ended => ?_⟩
  · rwa [ran]
  · rw [ran]
    exact .refl _
  · rw [ran] at ended ⊢
    exact has a (Option.some.inj ended)

theorem deals_change {step : Change κ α} (holds : ∀ a s, step w.store = .ok (a, s) →
      w.store.Keeps s ∧ s.Genuine ∧ ∀ v ∈ answers a, s.Has v) :
    Deals carries answers (change step) w := by
  rcases result : step w.store with e | ⟨a, s⟩
  · have ran : change step w = (some (.error e), w) := by rw [change, result]
    exact ⟨ran ▸ genuine, ran ▸ .refl _, fun a ended => by rw [ran] at ended; cases ended⟩
  · have ran : change step w = (some (.ok a), w.become s) := by rw [change, result]
    obtain ⟨keeps, new, has⟩ := holds a s result
    refine ⟨ran ▸ genuine.become keeps new, ran ▸ keeps, fun a' ended => ?_⟩
    rw [ran] at ended ⊢
    cases ended
    exact has

theorem deals_reading {read : Store κ → Except EvalError α}
    (has : ∀ a, read w.store = .ok a → ∀ v ∈ answers a, w.store.Has v) :
    Deals carries answers (reading read) w := by
  refine deals_change genuine fun a s ran => ?_
  obtain ⟨found, rfl⟩ := Store.reading_eq_ok ran
  exact ⟨.refl _, genuine.present, has a found⟩

omit genuine in
theorem deals_bind {x : Run (World κ σ) α} {next : α → Run (World κ σ) β}
    (first : Deals carries answers x w)
    (second : ∀ a w', x w = (some (.ok a), w') → w'.Genuine carries → w.store.Keeps w'.store →
      (∀ v ∈ answers a, w'.store.Has v) → Deals carries answers' (next a) w') :
    Deals carries answers' (x >>= next) w := by
  have stopped {ended : Option (Except EvalError β)} (ran : (x >>= next) w = (ended, (x w).2))
      (fails : ∀ b, ended ≠ some (.ok b)) : Deals carries answers' (x >>= next) w := by
    refine ⟨?_, ?_, fun b succeeds => ?_⟩
    · rw [ran]
      exact first.genuine
    · rw [ran]
      exact first.keeps
    · rw [ran] at succeeds
      exact absurd succeeds (fails b)
  rcases result : x w with ⟨_ | e | a, w'⟩
  · exact stopped (by rw [Run.bind_apply, result]) (by simp)
  · exact stopped (by rw [Run.bind_apply, result]) (by simp)
  · have ran : (x >>= next) w = next a w' := by rw [Run.bind_apply, result]
    obtain ⟨genuine, keeps, answered⟩ := first
    rw [result] at genuine keeps answered
    have last := second a w' result genuine keeps (answered a rfl)
    exact ⟨ran ▸ last.genuine, ran ▸ keeps.trans last.keeps, ran ▸ last.answered⟩

/-- What each run of a row keeps is kept by the whole. -/
theorem deals_forM {xs : List α} {f : α → Run (World κ σ) Unit}
    (each : ∀ x ∈ xs, ∀ w', w'.Genuine carries → Deals carries (fun _ => []) (f x) w') :
    Deals carries (fun _ => []) (xs.forM f) w := by
  induction xs generalizing w with
  | nil => exact deals_pure genuine nofun
  | cons x rest ih =>
    refine deals_bind (each x List.mem_cons_self w genuine) fun _ w' _ genuine _ _ => ?_
    exact ih genuine fun y member => each y (List.mem_cons_of_mem x member)

omit genuine in
/-- A failure that is answered answers no value. -/
theorem deals_attempt {x : Run (World κ σ) α} (deals : Deals carries answers x w) :
    Deals carries (fun answer => match answer with
      | .ok a => answers a
      | .error _ => []) x.attempt w := by
  refine ⟨deals.genuine, deals.keeps, fun answer ended => ?_⟩
  change (x w).1.map Except.ok = _ at ended
  obtain ⟨result, here, same⟩ := Option.map_eq_some_iff.mp ended
  cases same
  cases answer with
  | error e => exact nofun
  | ok a => exact deals.answered a here

end Steps

/-! ## Programs and calls -/

/-- Calls that are handed what is there answer what is there. -/
structure HonestCalls (carries : σ → List Value) (calls : Calls κ σ) : Prop where
  call : ∀ f arguments w, w.Genuine carries → (∀ v ∈ arguments, w.store.Has v) →
    Deals carries (fun v => [v]) (calls.call f arguments) w
  invoke : ∀ f arguments w, w.Genuine carries →
    Deals carries (fun _ => []) (calls.invoke f arguments) w

section Calls

variable {calls inner : Calls κ σ} {embedder : Embedder κ σ}

theorem deals_grant (honest : HonestCalls carries calls) (genuine : w.Genuine carries)
    {r : Request κ σ} (has : ∀ v ∈ r.hands carries, w.store.Has v) :
    Deals carries (r.gives carries) (calls.grant r) w := by
  cases r with
  | operate o =>
    exact deals_change genuine fun a s ran => ⟨(Store.grows_perform ran).toKeeps,
      genuine.present.perform has ran, genuine.present.answers has ran⟩
  | call f arguments =>
    exact honest.call f arguments w genuine fun v member => has v (List.mem_cons_of_mem _ member)
  | invoke f arguments => exact honest.invoke f arguments w genuine
  | kept => exact ⟨genuine, .refl _, fun a ended => by cases ended; exact genuine.memo⟩
  | keep memo => exact ⟨⟨genuine.present, genuine.past, has⟩, .refl _, fun _ _ => nofun⟩

/-- A program that knows only what is there deals with nothing else. -/
theorem deals_run (honest : HonestCalls carries calls) {p : Program κ σ α} {known : Value → Prop}
    (program : p.Honest carries answers known) (genuine : w.Genuine carries)
    (has : ∀ v, known v → w.store.Has v) : Deals carries answers (p.run calls) w := by
  induction p generalizing known w with
  | done result => exact deals_liftM genuine fun a same v member => has v (program a same v member)
  | request r next ih =>
    obtain ⟨hands, onward⟩ := program
    refine deals_bind (deals_attempt (deals_grant honest genuine fun v member =>
      has v (hands v member))) fun answer w' _ genuine keeps given => ?_
    refine ih answer (onward answer) genuine fun v knows => ?_
    rcases knows with before | ⟨a, rfl, member⟩
    · exact (has v before).kept keeps
    · exact given v member

/-- A check that comes before the rest. -/
private theorem deals_guard (genuine : w.Genuine carries) {check : Bool} {fault : TypeFault}
    {rest : Run (World κ σ) α} (deals : Deals carries answers rest w) :
    Deals carries answers (if check then do fail fault; rest else rest) w := by
  cases check with
  | true =>
    have fails : Deals carries (fun _ => []) (fail fault : Run (World κ σ) PUnit) w :=
      deals_throw genuine _
    exact deals_bind fails fun _ _ ran => by cases ran
  | false => exact deals

private theorem deals_requireHome (genuine : w.Genuine carries) (function : Function κ)
    (home : EnvironmentId) :
    Deals carries (fun _ => []) (Calls.requireHome function home : Run (World κ σ) Unit) w := by
  unfold Calls.requireHome
  have reads : Deals carries (fun _ => []) (get : Run (World κ σ) (World κ σ)) w :=
    ⟨genuine, .refl _, fun _ _ => nofun⟩
  refine deals_bind reads fun now w' _ genuine _ _ => ?_
  split
  · exact deals_throw genuine _
  · exact deals_pure genuine nofun

/-- Raw numbers refer to nothing, so a call with them may go to any function. -/
theorem deals_invokeOver (honest : embedder.Honest carries) (through : HonestCalls carries inner)
    (genuine : w.Genuine carries) (f : FunctionId) (arguments : List Raw) :
    Deals carries (fun _ => []) (Calls.invokeOver embedder inner f arguments) w := by
  unfold Calls.invokeOver
  have reads : Deals carries (fun _ => []) (reading fun s => s.function f) w :=
    deals_reading genuine fun _ _ => nofun
  refine deals_bind reads fun function w₁ _ genuine _ _ => ?_
  cases function.callable with
  | binary type code home =>
    apply deals_guard genuine
    refine deals_bind (deals_requireHome genuine function home) fun _ w₂ _ genuine _ _ => ?_
    refine deals_bind (deals_run through (honest.binary code home arguments) genuine
      fun _ => .of_primitive) fun results w₃ _ genuine _ _ => ?_
    exact deals_guard genuine (deals_pure genuine nofun)
  | adapter type target =>
    apply deals_guard genuine
    refine deals_bind (through.call target _ w₁ genuine fun v member => ?_)
      fun result w₂ _ genuine _ _ => ?_
    · obtain ⟨raw, _, rfl⟩ := List.mem_map.mp member
      exact .ofRaw raw
    rcases type.results with _ | ⟨single, _ | ⟨next, rest⟩⟩
    · exact deals_pure genuine nofun
    · have converts : Deals carries (fun _ => [])
          (liftM ((result.toRaw single).mapError EvalError.type) : Run (World κ σ) Raw) w₂ :=
        deals_liftM genuine fun _ _ => nofun
      exact deals_bind converts fun raw w₃ _ genuine _ _ => deals_pure genuine nofun
    · exact deals_throw genuine (.type _)
  | script => exact deals_throw genuine (.type _)
  | host => exact deals_throw genuine (.type _)

theorem deals_callTyped (honest : embedder.Honest carries) (through : HonestCalls carries inner)
    (genuine : w.Genuine carries) (f : FunctionId) (name : String) (type : FuncType)
    (arguments : List Value) :
    Deals carries (fun v => [v]) (Calls.callTyped embedder inner f name type arguments) w := by
  unfold Calls.callTyped
  have converts : Deals carries (fun _ => [])
      (liftM ((Calls.convertArguments type.params arguments).mapError EvalError.type) :
        Run (World κ σ) (List Raw)) w := deals_liftM genuine fun _ _ => nofun
  refine deals_bind converts fun raws w₁ _ genuine _ _ => ?_
  refine deals_bind (deals_invokeOver honest through genuine f raws)
    fun results w₂ _ genuine _ _ => ?_
  rcases results with _ | ⟨single, _ | ⟨next, rest⟩⟩
  · exact deals_pure genuine fun v member => List.mem_singleton.mp member ▸ trivial
  · exact deals_pure genuine fun v member => List.mem_singleton.mp member ▸ .ofRaw single
  · exact deals_throw genuine (.type _)

/-- A function that is handed what is there answers what is there. -/
theorem deals_callOver (honest : embedder.Honest carries) (through : HonestCalls carries inner)
    (genuine : w.Genuine carries) (f : FunctionId) {arguments : List Value}
    (has : ∀ v ∈ arguments, w.store.Has v) :
    Deals carries (fun v => [v]) (Calls.callOver embedder inner f arguments) w := by
  unfold Calls.callOver
  have reads : Deals carries (fun _ => []) (reading fun s => s.function f) w :=
    deals_reading genuine fun _ _ => nofun
  refine deals_bind reads fun function w₁ _ genuine keeps _ => ?_
  have has : ∀ v, v.Primitive ∨ v ∈ arguments → w₁.store.Has v := fun v known =>
    known.elim .of_primitive fun member => (has v member).kept keeps
  cases function.callable with
  | script code home =>
    refine deals_bind (deals_requireHome genuine function home) fun _ w₂ _ genuine keeps _ => ?_
    exact deals_run through (honest.script code (some home) arguments) genuine
      fun v known => (has v known).kept keeps
  | host code => exact deals_run through (honest.script code none arguments) genuine has
  | binary type => exact deals_callTyped honest through genuine f function.name type arguments
  | adapter type => exact deals_callTyped honest through genuine f function.name type arguments

/-- Calls of an honest embedder are honest, however deep they nest. -/
theorem honestCalls_ofDepth (honest : embedder.Honest carries) (depth : Nat) :
    HonestCalls carries (Calls.ofDepth embedder depth) := by
  induction depth with
  | zero => exact ⟨fun _ _ _ genuine _ => ⟨genuine, .refl _, nofun⟩,
      fun _ _ _ genuine => ⟨genuine, .refl _, nofun⟩⟩
  | succ depth ih => exact ⟨fun f _ _ genuine has => deals_callOver honest ih genuine f has,
      fun f arguments _ genuine => deals_invokeOver honest ih genuine f arguments⟩

end Calls
end World
end MixedModules
