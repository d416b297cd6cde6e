import MixedModules.Proofs.Evaluation.Body

/-! What a module that is entered fails for.

The environment of a module that was linked is there, and nothing takes it away. So no
step of the module itself refuses it as one that was not linked: such a failure is one
that code of the embedder ended with. -/
namespace MixedModules

variable {κ σ α β : Type}

/-- Code of the embedder ended with a failure: the body of a module, or a call. -/
def Interpreter.Ends (interpreter : Interpreter κ σ) (e : EvalError) : Prop :=
  (∃ code home w, ((interpreter.embedder.body code home).run interpreter.calls w).1 =
      some (.error e)) ∨
    ∃ f arguments w, (interpreter.calls.invoke f arguments w).1 = some (.error e)

/-- A result that does not refuse a module as one that was not linked. -/
def Spared (result : Except EvalError α) : Prop := ∀ text, result ≠ .error (.notLinked text)

namespace Spared

theorem ok (a : α) : Spared (.ok a : Except EvalError α) := fun _ refused => by cases refused

theorem bind {x : Except EvalError α} {next : α → Except EvalError β} (first : Spared x)
    (rest : ∀ a, x = .ok a → Spared (next a)) : Spared (x >>= next) := by
  intro text refused
  cases result : x with
  | error e =>
    rw [result] at refused
    cases refused
    exact first text result
  | ok a =>
    rw [result] at refused
    exact rest a result text refused

end Spared

namespace Store

variable {s s' : Store κ} {e : EnvironmentId} {name : String}

/-! ## What reads and writes fail for -/

theorem spared_environment (present : s.Present e) : Spared (s.environment e) := by
  obtain ⟨environment, known⟩ := present
  rw [environment_eq_ok.mpr known]
  exact .ok environment

theorem spared_readSlot (i : SlotId) : Spared (s.readSlot i) := by
  unfold readSlot Slot.read
  intro text refused
  split at refused
  · split at refused <;> cases refused
  · cases refused

theorem spared_readEntity (present : s.Present e) : Spared (s.readEntity e name) := by
  unfold readEntity
  apply (spared_environment present).bind
  intro environment _ text refused
  split at refused <;> cases refused

theorem spared_readEntityAs {kind : BindingKind} {part : Value → Option α}
    (present : s.Present e) : Spared (s.readEntityAs kind part e name) := by
  unfold readEntityAs
  apply (spared_environment present).bind
  intro environment _
  apply (spared_readEntity present).bind
  intro value _ text refused
  split at refused <;> cases refused

theorem spared_global (g : GlobalId) : Spared (s.global g) := by
  unfold global
  intro text refused
  split at refused <;> cases refused

theorem spared_newGlobal (type : GlobalType) (initial : Raw) :
    Spared (newGlobal type initial s) := by
  unfold newGlobal
  intro text refused
  split at refused <;> cases refused

theorem spared_newMemory (limits : Limits) : Spared (newMemory limits s) := by
  unfold newMemory
  intro text refused
  split at refused <;> cases refused

theorem spared_newTable (limits : Limits) : Spared (newTable limits s) := by
  unfold newTable
  intro text refused
  split at refused <;> cases refused

theorem spared_writeMemory (m : MemoryId) (offset : Nat) (bytes : List UInt8) :
    Spared (writeMemory m offset bytes s) := by
  unfold writeMemory
  refine Spared.bind (fun text refused => ?_) fun memory _ text refused => ?_
  · unfold memory at refused
    split at refused <;> cases refused
  · split at refused <;> cases refused

theorem spared_writeTable (t : TableId) (index : Nat) (element : Option FunctionId) :
    Spared (writeTable t index element s) := by
  unfold writeTable
  refine Spared.bind (fun text refused => ?_) fun table _ text refused => ?_
  · unfold table at refused
    split at refused <;> cases refused
  · split at refused <;> cases refused

theorem spared_trapOf {identity : String} {cause : TypeFault → TrapCause}
    {result : Except EvalError α} (spared : Spared result) :
    Spared (trapOf identity cause result) := by
  unfold trapOf
  intro text refused
  cases result with
  | ok a => cases refused
  | error e =>
    cases e with
    | notLinked text' => exact spared text' rfl
    | type fault => cases refused
    | uninitialized => cases refused
    | unbound => cases refused
    | linkType => cases refused
    | trap => cases refused
    | thrown => cases refused

/-! ## The steps of a module -/

/-- A step that needs the environment of one module, and leaves it where it is. -/
structure Homely (e : EnvironmentId) (step : Change κ Unit) : Prop where
  spared : ∀ s, s.Present e → Spared (step s)
  grows : ∀ s s', step s = .ok ((), s') → s.Grows s'

theorem homely_observeImport (environment : Environment) (b : ImportBinding) :
    Homely e (observeImport (κ := κ) e environment b) := by
  constructor
  · intro s _
    unfold observeImport
    cases b.mode <;> cases environment.kind
    · exact .ok _
    · exact (spared_readSlot b.target).bind fun value _ => .ok _
    · exact (spared_readSlot b.target).bind fun value _ => .ok _
    · apply (spared_readSlot b.target).bind
      intro value _ text refused
      split at refused <;> cases refused
  · intro s s' ran
    cases importStep_of_observeImport ran with
    | left => exact .refl s
    | installed => exact grows_install ..
    | captured => exact grows_modifySlot (setSnapshot_content _)
    | checked _ _ _ observes =>
      exact ((observe_spec observes).1.grows.trans (grows_modifySlot (setSnapshot_content _))).trans
        (grows_install ..)

theorem homely_defineGlobal (d : GlobalDef) : Homely e (defineGlobal (κ := κ) e d) := by
  constructor
  · intro s present
    unfold defineGlobal
    cases d.initial with
    | constant value =>
      apply (Spared.ok value).bind
      intro initial _
      exact (spared_newGlobal d.type initial).bind fun _ _ => .ok _
    | imported localName =>
      apply (spared_readEntityAs present).bind
      intro g _
      apply (spared_global g).bind
      intro global _
      apply (Spared.ok global.value).bind
      intro initial _
      exact (spared_newGlobal d.type initial).bind fun _ _ => .ok _
  · intro s s' ran
    obtain ⟨initial, g, s₁, made, rfl⟩ := defineGlobal_eq_ok ran
    exact (sameBindings_newGlobal made).1.grows.trans (grows_install ..)

theorem homely_defineMemory (d : SizedDef) : Homely e (defineMemory (κ := κ) e d) := by
  constructor
  · intro s _
    unfold defineMemory
    exact (spared_newMemory d.limits).bind fun _ _ => .ok _
  · intro s s' ran
    unfold defineMemory at ran
    obtain ⟨⟨m, s₁⟩, made, ran⟩ := bind_eq_ok ran
    cases ran
    exact (sameBindings_newMemory made).1.grows.trans (grows_install ..)

theorem homely_defineTable (d : SizedDef) : Homely e (defineTable (κ := κ) e d) := by
  constructor
  · intro s _
    unfold defineTable
    exact (spared_newTable d.limits).bind fun _ _ => .ok _
  · intro s s' ran
    unfold defineTable at ran
    obtain ⟨⟨t, s₁⟩, made, ran⟩ := bind_eq_ok ran
    cases ran
    exact (sameBindings_newTable made).1.grows.trans (grows_install ..)

theorem homely_defineFunction (d : FuncDef κ) : Homely e (defineFunction e d) := by
  constructor
  · intro s _
    exact .ok _
  · intro s s' ran
    unfold defineFunction at ran
    cases ran
    exact (grows_addFunction ..).trans (grows_install ..)

theorem homely_applyData (identity : String) (segment : DataSegment) :
    Homely e (applyData (κ := κ) e identity segment) := by
  constructor
  · intro s present
    unfold applyData
    apply (spared_readEntityAs present).bind
    intro m _
    exact spared_trapOf (spared_writeMemory m segment.offset segment.bytes)
  · exact fun s s' ran => (sameBindings_applyData ran).grows

theorem homely_applyElement (identity : String) (segment : ElementSegment) (t : TableId) (i : Nat)
    (name : String) : Homely e (applyElement (κ := κ) e identity segment t i name) := by
  constructor
  · intro s present
    unfold applyElement
    split
    · intro text refused
      cases refused
    · apply (spared_readEntityAs present).bind
      intro f _
      exact spared_trapOf (spared_writeTable t (segment.offset + i) (some f))
  · exact fun s s' ran => (sameBindings_applyElement ran).grows

private theorem spared_publish (present : s.Present e) (decl : ExportDecl κ) :
    Spared (publish e s decl) := by
  have entity : ∀ exported name, Spared (publishEntity e s exported name) := by
    intro exported name
    unfold publishEntity
    apply (spared_readEntity present).bind
    intro value _
    apply (spared_environment present).bind
    intro environment _
    cases environment.exports.get? exported <;> exact .ok _
  unfold publish
  cases decl.source with
  | own name => exact entity decl.name name
  | observed name => exact entity decl.name name
  | declaration => exact .ok s
  | indirect => exact .ok s

private theorem grows_publish {decl : ExportDecl κ} (ran : publish e s decl = .ok s') :
    s.Grows s' := by
  rcases publish_eq_ok ran with rfl | ⟨name, _, ran⟩
  · exact .refl s'
  obtain ⟨_, value, _, _, ⟨_, rfl⟩ | ⟨i, _, rfl⟩⟩ := publishEntity_eq_ok ran
  · exact .refl s'
  · exact grows_modifySlot (setLive_content value)

theorem homely_publishAll (decls : List (ExportDecl κ)) : Homely e (publishAll e decls) := by
  have grows : ∀ s s' : Store κ, decls.foldlM (publish e) s = .ok s' → s.Grows s' := by
    induction decls with
    | nil =>
      intro s s' ran
      cases ran
      exact .refl s
    | cons decl rest ih =>
      intro s s' ran
      obtain ⟨next, first, ran⟩ := bind_eq_ok ran
      exact (grows_publish first).trans (ih next s' ran)
  have spared : ∀ s : Store κ, s.Present e → Spared (decls.foldlM (publish e) s) := by
    clear grows
    induction decls with
    | nil => exact fun s _ => .ok s
    | cons decl rest ih =>
      intro s present
      apply (spared_publish present decl).bind
      intro next first
      exact ih next (present.grows (grows_publish first))
  constructor
  · intro s present
    exact (spared s present).bind fun next _ => .ok _
  · intro s s' ran
    obtain ⟨last, folded, same⟩ := bind_eq_ok ran
    cases same
    exact grows s s' folded

end Store

namespace World

variable {interpreter : Interpreter κ σ} {e : EnvironmentId} {w : World κ σ}

/-- A run that needs the environment of one module, and leaves it where it is. It ends
with a refusal only if code of the embedder does. -/
structure Homely (interpreter : Interpreter κ σ) (e : EnvironmentId) (x : Run (World κ σ) α) :
    Prop where
  spared : ∀ w, w.store.Present e → ∀ text, (x w).1 = some (.error (.notLinked text)) →
    interpreter.Ends (.notLinked text)
  through : Through Store.Grows x

namespace Homely

theorem pure (a : α) : Homely interpreter e (pure a : Run (World κ σ) α) :=
  ⟨fun _ _ _ refused => (by cases refused), through_pure Store.respected_grows a⟩

theorem bind {x : Run (World κ σ) α} {next : α → Run (World κ σ) β} (first : Homely interpreter e x)
    (rest : ∀ a, Homely interpreter e (next a)) : Homely interpreter e (x >>= next) := by
  constructor
  · intro w present text refused
    have here := first.spared w present text
    have leads := first.through w
    rw [Run.bind_apply] at refused
    rcases result : x w with ⟨_ | err | a, w'⟩ <;> rw [result] at refused here leads
    · cases refused
    · cases refused
      exact here rfl
    · exact (rest a).spared w' (present.grows leads.present) text refused
  · exact through_bind Store.respected_grows first.through fun a => (rest a).through

theorem forM {xs : List α} {f : α → Run (World κ σ) Unit}
    (each : ∀ x ∈ xs, Homely interpreter e (f x)) : Homely interpreter e (xs.forM f) := by
  induction xs with
  | nil => exact .pure ()
  | cons x rest ih =>
    apply (each x List.mem_cons_self).bind
    intro _
    exact ih fun y member => each y (List.mem_cons_of_mem x member)

theorem change {step : Change κ Unit} (homely : Store.Homely e step) :
    Homely interpreter e (World.change step) := by
  constructor
  · intro w present text refused
    unfold World.change at refused
    cases result : step w.store with
    | error err =>
      rw [result] at refused
      cases refused
      exact absurd result (homely.spared _ present text)
    | ok pair =>
      rw [result] at refused
      cases refused
  · exact fun w => leads_change Store.respected_grows fun _ s ran => homely.grows w.store s ran

theorem reading {read : Store κ → Except EvalError α}
    (spared : ∀ s, s.Present e → Spared (read s)) :
    Homely interpreter e (World.reading read : Run (World κ σ) α) := by
  constructor
  · intro w present text refused
    unfold World.reading World.change Operation.reading at refused
    cases result : read w.store with
    | error err =>
      rw [result] at refused
      cases refused
      exact absurd result (spared _ present text)
    | ok a =>
      rw [result] at refused
      cases refused
  · exact through_reading Store.respected_grows read

theorem throw {err : EvalError} (spared : ∀ text, err ≠ .notLinked text) :
    Homely interpreter e (throw err : Run (World κ σ) α) :=
  ⟨fun _ _ text refused => absurd (by cases refused; rfl) (spared text),
    through_throw Store.respected_grows err⟩

end Homely

/-! ## The whole module -/

private theorem through_calls (interpreter : Interpreter κ σ) :
    PassesCalls (Leads Store.Grows) interpreter.calls :=
  through_ofDepth Store.respected_grows interpreter.embedder interpreter.depth

theorem homely_body (code : κ) :
    Homely interpreter e ((interpreter.embedder.body code e).run interpreter.calls) :=
  ⟨fun w _ _ refused => .inl ⟨code, e, w, refused⟩,
    through_run Store.respected_grows (through_calls interpreter) _⟩

/-- A program of one request is the granting of it. -/
theorem run_ask (calls : Calls κ σ) (r : Request κ σ) (w : World κ σ) :
    (Program.ask r).run calls w = calls.grant r w := by
  unfold Program.ask Program.run
  rw [Run.bind_apply, Run.attempt]
  rcases calls.grant r w with ⟨_ | _ | _, _⟩ <;> rfl

theorem homely_invoke (f : FunctionId) (arguments : List Raw) :
    Homely interpreter e ((Program.invoke f arguments).run interpreter.calls) := by
  constructor
  · intro w _ text refused
    unfold Program.invoke at refused
    rw [run_ask] at refused
    exact .inr ⟨f, arguments, w, refused⟩
  · exact through_run Store.respected_grows (through_calls interpreter) _

theorem homely_invokeName (name : String) (arguments : List Raw) :
    Homely interpreter e ((Program.invokeName e name arguments).run interpreter.calls) := by
  have found : Homely interpreter e
      ((Program.operate (.readEntityOf .function e name)).run interpreter.calls) := by
    have read : Homely interpreter e (World.reading (σ := σ) fun s : Store κ =>
        s.readEntityOf .function e name) := .reading fun s present => Store.spared_readEntityAs present
    constructor
    · intro w present text refused
      unfold Program.operate at refused
      rw [run_ask] at refused
      exact read.spared w present text refused
    · exact through_run Store.respected_grows (through_calls interpreter) _
  have whole : (Program.invokeName e name arguments).run interpreter.calls = _ :=
    Program.run_bind interpreter.calls (Program.operate (.readEntityOf .function e name)) _
  rw [whole]
  apply found.bind
  intro callee
  cases callee with
  | function f => exact homely_invoke f arguments
  | _ => exact Homely.throw (by simp)

theorem homely_applyElements (identity : String) (segment : ElementSegment) :
    Homely interpreter e (applyElements (σ := σ) e identity segment) := by
  unfold applyElements
  refine Homely.bind (.reading fun s present => Store.spared_readEntityAs present) fun t => ?_
  exact .forM fun entry _ => .change (Store.homely_applyElement ..)

theorem homely_instantiate (identity : String) (record : Record κ) (body : BinaryBody κ) :
    Homely interpreter e (instantiate interpreter.calls e identity record body) := by
  unfold instantiate
  refine Homely.bind (.forM fun d _ => .change (Store.homely_defineGlobal d)) fun _ => ?_
  refine Homely.bind (.forM fun d _ => .change (Store.homely_defineMemory d)) fun _ => ?_
  refine Homely.bind (.forM fun d _ => .change (Store.homely_defineTable d)) fun _ => ?_
  refine Homely.bind (.forM fun d _ => .change (Store.homely_defineFunction d)) fun _ => ?_
  refine Homely.bind (.forM fun segment _ => .change (Store.homely_applyData ..)) fun _ => ?_
  refine Homely.bind (.forM fun segment _ => homely_applyElements identity segment) fun _ => ?_
  have last : Homely interpreter e (World.change (σ := σ) (Store.publishAll e record.exports)) :=
    .change (Store.homely_publishAll record.exports)
  cases body.start with
  | none => exact last
  | some name => exact (homely_invokeName name []).bind fun _ => last

theorem homely_enterDeadZones (environment : Environment) :
    Homely interpreter e (enterDeadZones (κ := κ) environment) := by
  refine Homely.forM fun slot _ => Homely.change ⟨fun s _ => .ok _, fun s s' ran => ?_⟩
  cases ran
  exact Store.grows_modifySlot Store.enterDeadZone_content

/-- A module whose environment is there is not refused, unless code of the embedder does. -/
theorem homely_runModule (record : Record κ) :
    Homely interpreter e (runModule interpreter e record) := by
  unfold runModule
  refine Homely.bind (.reading fun s => Store.spared_environment) fun environment => ?_
  refine Homely.bind (.forM fun b _ => .change (Store.homely_observeImport environment b)) fun _ => ?_
  cases record.body with
  | script code =>
    apply (homely_enterDeadZones environment).bind
    intro _
    cases code with
    | none => exact .pure ()
    | some code => exact homely_body code
  | binary body => exact homely_instantiate environment.identity record body

end World
end MixedModules
