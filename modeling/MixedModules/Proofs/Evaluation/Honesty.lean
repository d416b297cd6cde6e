import MixedModules.Proofs.Evaluation.Failure
import MixedModules.Proofs.Evaluation.Simulation
import MixedModules.Proofs.Execution.Honesty

/-! Modules of an honest embedder.

A module that is run makes its definitions, reads what is there and puts it into slots and
entities. So where its code is honest, nothing refers to what is not there afterwards, however
the run ends. -/
namespace MixedModules

variable {κ σ : Type} {e : EnvironmentId}

namespace Store.Genuine

variable {s s' : Store κ}

/-! ## Steps of a module -/

theorem observeImport {environment : Environment} {b : ImportBinding} (genuine : s.Genuine)
    (ran : observeImport e environment b s = .ok ((), s')) : s'.Genuine := by
  cases importStep_of_observeImport ran with
  | left => exact genuine
  | installed _ _ held => exact genuine.install e b.localName (genuine.readSlot held)
  | captured _ _ held => exact genuine.setSnapshot b.own (genuine.readSlot held)
  | checked _ _ _ observes =>
    have has : Store.Has _ _ := .of_conforms (observe_spec observes).2
    exact ((genuine.observe observes).setSnapshot b.own has).install e b.localName has

theorem defineGlobal {d : GlobalDef} (genuine : s.Genuine)
    (ran : defineGlobal e d s = .ok ((), s')) : s'.Genuine := by
  obtain ⟨initial, g, s₁, made, rfl⟩ := defineGlobal_eq_ok ran
  obtain ⟨global, known, _⟩ := (sameBindings_newGlobal made).2
  exact (genuine.newGlobal made).install e d.name ⟨global, known⟩

theorem defineMemory {d : SizedDef} (genuine : s.Genuine)
    (ran : defineMemory e d s = .ok ((), s')) : s'.Genuine := by
  obtain ⟨⟨m, s₁⟩, made, ran⟩ := bind_eq_ok ran
  cases ran
  obtain ⟨memory, known, _⟩ := (sameBindings_newMemory made).2
  exact (genuine.newMemory made).install e d.name ⟨memory, known⟩

theorem defineTable {d : SizedDef} (genuine : s.Genuine)
    (ran : defineTable e d s = .ok ((), s')) : s'.Genuine := by
  obtain ⟨⟨t, s₁⟩, made, ran⟩ := bind_eq_ok ran
  cases ran
  obtain ⟨table, known, _⟩ := (sameBindings_newTable made).2
  exact (genuine.newTable made).install e d.name ⟨table, known⟩

theorem defineFunction {d : FuncDef κ} (genuine : s.Genuine)
    (ran : defineFunction e d s = .ok ((), s')) : s'.Genuine := by
  cases ran
  exact (genuine.addFunction d.name _).install e d.name ⟨_, function_addFunction s d.name _⟩

theorem applyData {identity : String} {segment : DataSegment} (genuine : s.Genuine)
    (ran : applyData e identity segment s = .ok ((), s')) : s'.Genuine := by
  obtain ⟨m, _, ran⟩ := bind_eq_ok ran
  exact genuine.writeMemory (trapOf_eq_ok ran)

theorem applyElement {identity name : String} {segment : ElementSegment} {t : TableId} {i : Nat}
    (genuine : s.Genuine) (ran : applyElement e identity segment t i name s = .ok ((), s')) :
    s'.Genuine := by
  unfold Store.applyElement at ran
  split at ran
  · cases ran
  · obtain ⟨f, read, ran⟩ := bind_eq_ok ran
    obtain ⟨value, part, has⟩ := genuine.readEntityAs read
    cases value <;> cases part
    refine genuine.writeTable (fun f' same => ?_) (trapOf_eq_ok ran)
    cases same
    exact has

theorem publish {decl : ExportDecl κ} (genuine : s.Genuine) (ran : publish e s decl = .ok s') :
    s'.Genuine := by
  rcases publish_eq_ok ran with rfl | ⟨name, _, ran⟩
  · exact genuine
  obtain ⟨environment, value, known, held, ⟨_, rfl⟩ | ⟨i, _, rfl⟩⟩ := publishEntity_eq_ok ran
  · exact genuine
  · exact genuine.setLive i (genuine.entities e environment name value known held)

theorem publishAll {decls : List (ExportDecl κ)} (genuine : s.Genuine)
    (ran : publishAll e decls s = .ok ((), s')) : s'.Genuine := by
  obtain ⟨last, folded, same⟩ := bind_eq_ok ran
  cases same
  clear ran
  induction decls generalizing s with
  | nil =>
    cases folded
    exact genuine
  | cons decl rest ih =>
    obtain ⟨next, first, folded⟩ := bind_eq_ok folded
    exact ih (genuine.publish first) folded

end Store.Genuine

/-- To call an entity by its name takes no handle. -/
theorem Program.honest_invokeName (carries : σ → List Value) (home : EnvironmentId) (name : String)
    (arguments : List Raw) : (Program.invokeName home name arguments : Program κ σ (List Raw)).Honest
      carries (fun _ => []) Value.Primitive := by
  refine ⟨nofun, fun answer => ?_⟩
  cases answer with
  | error e => exact fun _ same => by cases same
  | ok value =>
    cases value with
    | function f =>
      refine ⟨fun v handed => .inr ⟨.function f, rfl, handed⟩, fun answer => ?_⟩
      exact fun _ _ _ => nofun
    | undefined | null | bool | number | bigint | string | global | memory | table =>
      exact fun _ same => by cases same

namespace World

variable {carries : σ → List Value} {w : World κ σ} {interpreter : Interpreter κ σ}
  (honest : interpreter.embedder.Honest carries) (genuine : w.Genuine carries)

include genuine

/-- A step of a module that puts only what is there anywhere. -/
theorem deals_homely {step : Change κ Unit} (homely : Store.Homely e step)
    (kept : ∀ s s', s.Genuine → step s = .ok ((), s') → s'.Genuine) :
    Deals carries (fun _ => []) (change step) w :=
  deals_change genuine fun _ s ran =>
    ⟨(homely.grows w.store s ran).toKeeps, kept _ s genuine.present ran, nofun⟩

/-- Such steps for each of a row. -/
theorem deals_each {α : Type} {step : α → Change κ Unit} {xs : List α}
    (homely : ∀ x, Store.Homely e (step x))
    (kept : ∀ x s s', s.Genuine → step x s = .ok ((), s') → s'.Genuine) :
    Deals carries (fun _ => []) (xs.forM fun x => change (step x)) w :=
  deals_forM genuine fun x _ _ genuine => deals_homely genuine (homely x) (kept x)

theorem deals_observeImports (environment : Environment) :
    Deals carries (fun _ => []) (observeImports e environment) w :=
  deals_each genuine (Store.homely_observeImport environment) fun _ _ _ genuine ran =>
    genuine.observeImport ran

theorem deals_enterDeadZones (environment : Environment) :
    Deals carries (fun _ => []) (enterDeadZones environment) w :=
  deals_forM genuine fun i _ w' genuine => deals_change genuine fun _ s ran => by
    cases ran
    exact ⟨(Store.grows_modifySlot Store.enterDeadZone_content).toKeeps,
      genuine.present.enterDeadZone i, nofun⟩

theorem deals_applyElements (identity : String) (segment : ElementSegment) :
    Deals carries (fun _ => []) (applyElements e identity segment) w := by
  have reads : Deals carries (fun _ => [])
      (reading fun s => s.readEntityAs .table Value.table? e segment.table) w :=
    deals_reading genuine fun _ _ => nofun
  refine deals_bind reads fun t w₁ _ genuine _ _ => ?_
  exact deals_each genuine (fun _ => Store.homely_applyElement ..) fun _ _ _ genuine ran =>
    genuine.applyElement ran

include honest

theorem deals_instantiate (identity : String) (record : Record κ) (body : BinaryBody κ) :
    Deals carries (fun _ => []) (instantiate interpreter.calls e identity record body) w := by
  unfold instantiate
  refine deals_bind (deals_each genuine Store.homely_defineGlobal fun _ _ _ genuine ran =>
    genuine.defineGlobal ran) fun _ _ _ genuine _ _ => ?_
  refine deals_bind (deals_each genuine Store.homely_defineMemory fun _ _ _ genuine ran =>
    genuine.defineMemory ran) fun _ _ _ genuine _ _ => ?_
  refine deals_bind (deals_each genuine Store.homely_defineTable fun _ _ _ genuine ran =>
    genuine.defineTable ran) fun _ _ _ genuine _ _ => ?_
  refine deals_bind (deals_each genuine Store.homely_defineFunction fun _ _ _ genuine ran =>
    genuine.defineFunction ran) fun _ _ _ genuine _ _ => ?_
  refine deals_bind (deals_each genuine (Store.homely_applyData identity) fun _ _ _ genuine ran =>
    genuine.applyData ran) fun _ _ _ genuine _ _ => ?_
  refine deals_bind (deals_forM genuine fun segment _ _ genuine =>
    deals_applyElements genuine identity segment) fun _ _ _ genuine _ _ => ?_
  have publishes : ∀ w' : World κ σ, w'.Genuine carries →
      Deals carries (fun _ => []) (change (Store.publishAll e record.exports)) w' := fun w' genuine =>
    deals_homely genuine (Store.homely_publishAll record.exports) fun _ _ genuine ran =>
      genuine.publishAll ran
  cases body.start with
  | none => exact publishes _ genuine
  | some name =>
    refine deals_bind (deals_run (honestCalls_ofDepth honest interpreter.depth)
      (Program.honest_invokeName carries e name []) genuine fun _ => .of_primitive)
      fun _ _ _ genuine _ _ => publishes _ genuine

/-- Whatever comes of a module that is run, nothing refers to what is not there. -/
theorem deals_runModule (record : Record κ) :
    Deals carries (fun _ => []) (runModule interpreter e record) w := by
  unfold runModule
  have reads : Deals carries (fun _ => []) (reading fun s => s.environment e) w :=
    deals_reading genuine fun _ _ => nofun
  refine deals_bind reads fun environment w₁ _ genuine _ _ => ?_
  refine deals_bind (deals_observeImports genuine environment) fun _ w₂ _ genuine _ _ => ?_
  cases record.body with
  | script code =>
    refine deals_bind (deals_enterDeadZones genuine environment) fun _ w₃ _ genuine _ _ => ?_
    cases code with
    | none => exact deals_pure genuine nofun
    | some code =>
      exact deals_run (honestCalls_ofDepth honest interpreter.depth) (honest.body code e) genuine
        fun _ => .of_primitive
  | binary body => exact deals_instantiate honest genuine environment.identity record body

end World

namespace Machine

open World

variable {carries : σ → List Value} {interpreter : Interpreter κ σ} {r : Registry κ}

theorem deals_program (honest : interpreter.embedder.Honest carries) (m : ModuleId) {w : World κ σ}
    (genuine : w.Genuine carries) : Deals carries (fun _ => []) (program interpreter r m) w := by
  unfold program
  cases r.get? m with
  | none => exact deals_throw genuine _
  | some i =>
    cases home : i.environment with
    | none =>
      simp only [home]
      exact deals_throw genuine _
    | some e =>
      simp only [home]
      exact deals_runModule honest genuine i.record

/-- So it is after modules that are run one after the other. -/
theorem genuine_runSearch (honest : interpreter.embedder.Honest carries) (stop : Option EvalError)
    (order : List (ModuleId × List ModuleId)) {w : World κ σ} (genuine : w.Genuine carries) :
    (runSearch interpreter r stop order w).2.2.Genuine carries := by
  induction order generalizing w with
  | nil => exact genuine
  | cons entry rest ih =>
    have here := (deals_program honest entry.1 (r := r) genuine).genuine
    unfold runSearch at ih ⊢
    simp only [runInOrder]
    rcases result : program interpreter r entry.1 w with ⟨_ | _ | _, w'⟩ <;> rw [result] at here
    · exact here
    · exact here
    · exact ih here

end Machine
end MixedModules
