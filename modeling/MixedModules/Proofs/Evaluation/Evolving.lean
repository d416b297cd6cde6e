import MixedModules.Proofs.Evaluation.Moves
import MixedModules.Proofs.Store.Lasting

/-! Objects change by operations only.

Whatever a module does when it is run, code or not, it does to objects what operations do, one
at a time: it makes some, it writes its segments, and all else that it does is to slots and
entities. So all that there has been of a store is a chain of operations, as far as objects go. -/
namespace MixedModules

variable {κ σ : Type}

namespace Store

variable {s s' : Store κ} {e : EnvironmentId}

/-! ## Steps of a module -/

theorem evolves_observeImport {environment : Environment} {b : ImportBinding}
    (ran : observeImport e environment b s = .ok ((), s')) : s.Evolves s' := by
  cases importStep_of_observeImport ran with
  | left | installed | captured => exact .of_same ⟨rfl, rfl, rfl⟩
  | @checked value observed s₁ _ _ _ observes =>
    have ran : (Operation.observe b.kind b.type value).perform s = .ok (.ok observed, s₁) := by
      simp only [Operation.perform, observes]
    exact .of_perform _ ran ⟨rfl, rfl, rfl⟩

theorem evolves_defineGlobal {d : GlobalDef} (ran : defineGlobal e d s = .ok ((), s')) :
    s.Evolves s' := by
  obtain ⟨initial, g, s₁, made, rfl⟩ := defineGlobal_eq_ok ran
  exact .of_perform (.newGlobal d.type initial) made ⟨rfl, rfl, rfl⟩

theorem evolves_defineMemory {d : SizedDef} (ran : defineMemory e d s = .ok ((), s')) :
    s.Evolves s' := by
  obtain ⟨⟨m, s₁⟩, made, ran⟩ := bind_eq_ok ran
  cases ran
  exact .of_perform (.newMemory d.limits) made ⟨rfl, rfl, rfl⟩

theorem evolves_defineTable {d : SizedDef} (ran : defineTable e d s = .ok ((), s')) :
    s.Evolves s' := by
  obtain ⟨⟨t, s₁⟩, made, ran⟩ := bind_eq_ok ran
  cases ran
  exact .of_perform (.newTable d.limits) made ⟨rfl, rfl, rfl⟩

theorem evolves_defineFunction {d : FuncDef κ} (ran : defineFunction e d s = .ok ((), s')) :
    s.Evolves s' := by
  cases ran
  exact .of_same ⟨rfl, rfl, rfl⟩

theorem evolves_applyData {identity : String} {segment : DataSegment}
    (ran : applyData e identity segment s = .ok ((), s')) : s.Evolves s' := by
  obtain ⟨m, _, ran⟩ := bind_eq_ok ran
  exact .of_perform (.writeMemory m segment.offset segment.bytes) (trapOf_eq_ok ran) (.refl s')

theorem evolves_applyElement {identity name : String} {segment : ElementSegment} {t : TableId}
    {i : Nat} (ran : applyElement e identity segment t i name s = .ok ((), s')) : s.Evolves s' := by
  unfold applyElement at ran
  split at ran
  · cases ran
  · obtain ⟨f, _, ran⟩ := bind_eq_ok ran
    exact .of_perform (.writeTable t (segment.offset + i) (some f)) (trapOf_eq_ok ran) (.refl s')

/-- To publish exports changes slots only. -/
theorem evolves_publishAll {decls : List (ExportDecl κ)}
    (ran : publishAll e decls s = .ok ((), s')) : s.Evolves s' := by
  obtain ⟨last, folded, same⟩ := bind_eq_ok ran
  cases same
  clear ran
  suffices same : s.SameObjects s' from .of_same same
  induction decls generalizing s with
  | nil =>
    cases folded
    exact .refl s'
  | cons decl rest ih =>
    obtain ⟨next, first, folded⟩ := bind_eq_ok folded
    refine SameObjects.trans ?_ (ih folded)
    rcases publish_eq_ok first with rfl | ⟨name, _, published⟩
    · exact .refl next
    obtain ⟨_, value, _, _, ⟨_, rfl⟩ | ⟨i, _, rfl⟩⟩ := publishEntity_eq_ok published
    · exact .refl next
    · exact ⟨rfl, rfl, rfl⟩

end Store

namespace World

variable {w w' : World κ σ}

/-- The stores that there have been come out of the empty one, each by one operation out of the one
before it, as far as objects go. -/
structure Evolving (w : World κ σ) : Prop where
  present : w.past.events.head? = some w.store
  first : w.past.events.getLast? = some .empty
  steps : w.past.events.IsChain fun later earlier => earlier.Evolves later

theorem Evolving.start (memo : σ) : (World.start .empty memo : World κ σ).Evolving := by
  have events : (World.start .empty memo : World κ σ).past.events = [.empty] := by
    simp [World.start]
  exact ⟨by rw [events]; rfl, by rw [events]; rfl, by rw [events]; exact .singleton _⟩

theorem Evolving.become {s : Store κ} (evolving : w.Evolving) (step : w.store.Evolves s) :
    (w.become s).Evolving := by
  have events : (w.become s).past.events = s :: w.past.events := Chronicle.events_add _ _
  obtain ⟨older, parts⟩ := List.head?_eq_some_iff.mp evolving.present
  refine ⟨by rw [events]; rfl, ?_, ?_⟩
  · rw [events, List.getLast?_cons, evolving.first]
    rfl
  · rw [events, List.isChain_cons]
    refine ⟨fun t head => ?_, evolving.steps⟩
    cases evolving.present.symm.trans head
    exact step

/-- Objects are within their bounds at every moment. -/
theorem Evolving.bounded (evolving : w.Evolving) : ∀ s ∈ w.past.events, s.Bounded := by
  refine evolving.steps.backwards_induction Store.Bounded _
    (fun later earlier step bounded => step.bounded bounded) fun some => ?_
  have last := evolving.first
  rw [List.getLast?_eq_some_getLast some, Option.some.injEq] at last
  rw [last]
  exact .empty

/-- An object lasts from every moment to every later one. -/
theorem Evolving.lasting (evolving : w.Evolving) :
    w.past.events.Pairwise fun later earlier => earlier.Lasts later := by
  let Follows (later earlier : Store κ) : Prop := earlier.Lasts later
  have : Trans Follows Follows Follows := ⟨fun second first => first.trans second⟩
  have chain : w.past.events.IsChain Follows := evolving.steps.imp fun _ _ step => step.lasts
  exact chain.pairwise

/-! ## Runs -/

/-- One world comes out of another by operations, as far as objects go. -/
def Evolved (w w' : World κ σ) : Prop := w.Evolving → w'.Evolving

theorem passing_evolved : Passing (Evolved (κ := κ) (σ := σ)) where
  refl _ evolving := evolving
  trans _ _ _ first second evolving := second (first evolving)
  operate o _ _ s ran evolving := evolving.become (.of_perform o ran (.refl s))
  keep _ _ evolving := ⟨evolving.present, evolving.first, evolving.steps⟩

/-- A step of a module. -/
private theorem passes_step {step : Change κ Unit}
    (evolves : ∀ s s', step s = .ok ((), s') → s.Evolves s') :
    Passes Evolved (change step : Run (World κ σ) Unit) :=
  passes_change passing_evolved.refl fun w _ s ran evolving => evolving.become (evolves w.store s ran)

/-- Steps of a module, one after the other. -/
private theorem passes_steps {α : Type} (xs : List α) {step : α → Change κ Unit}
    (evolves : ∀ x s s', step x s = .ok ((), s') → s.Evolves s') :
    Passes Evolved (xs.forM fun x => change (step x) : Run (World κ σ) Unit) :=
  passes_forM passing_evolved fun x _ => passes_step (evolves x)

variable {e : EnvironmentId} {record : Record κ} (interpreter : Interpreter κ σ)

private theorem passes_program (p : Program κ σ α) : Passes Evolved (p.run interpreter.calls) :=
  passes_run passing_evolved (passes_ofDepth passing_evolved _ _) p

theorem evolved_instantiate (identity : String) (body : BinaryBody κ) :
    Passes Evolved (instantiate interpreter.calls e identity record body) := by
  have elements (segment : ElementSegment) :
      Passes Evolved (applyElements e identity segment : Run (World κ σ) Unit) := by
    unfold applyElements
    refine passes_bind passing_evolved (passes_reading passing_evolved _) fun t => ?_
    exact passes_steps _ fun _ _ _ => Store.evolves_applyElement
  unfold instantiate
  refine passes_bind passing_evolved (passes_steps _ fun _ _ _ => Store.evolves_defineGlobal)
    fun _ => ?_
  refine passes_bind passing_evolved (passes_steps _ fun _ _ _ => Store.evolves_defineMemory)
    fun _ => ?_
  refine passes_bind passing_evolved (passes_steps _ fun _ _ _ => Store.evolves_defineTable)
    fun _ => ?_
  refine passes_bind passing_evolved (passes_steps _ fun _ _ _ => Store.evolves_defineFunction)
    fun _ => ?_
  refine passes_bind passing_evolved (passes_steps _ fun _ _ _ => Store.evolves_applyData)
    fun _ => ?_
  refine passes_bind passing_evolved (passes_forM passing_evolved fun segment _ => elements segment)
    fun _ => ?_
  have last : Passes Evolved (change (Store.publishAll e record.exports) : Run (World κ σ) Unit) :=
    passes_step fun _ _ => Store.evolves_publishAll
  cases body.start with
  | none => exact last
  | some name => exact passes_bind passing_evolved (passes_program interpreter _) fun _ => last

/-- Whatever a module does when it is run it does to objects by operations. -/
theorem evolved_runModule : Passes Evolved (runModule interpreter e record) := by
  unfold runModule
  refine passes_bind passing_evolved (passes_reading passing_evolved _) fun environment => ?_
  refine passes_bind passing_evolved (passes_steps _ fun _ _ _ => Store.evolves_observeImport)
    fun _ => ?_
  cases record.body with
  | binary body => exact evolved_instantiate interpreter environment.identity body
  | script code =>
    have zones : Passes Evolved (enterDeadZones environment : Run (World κ σ) Unit) :=
      passes_steps _ fun i s s' closed => by
        cases closed
        exact .of_same ⟨rfl, rfl, rfl⟩
    refine passes_bind passing_evolved zones fun _ => ?_
    cases code with
    | none => exact passes_pure passing_evolved ()
    | some code => exact passes_program interpreter _

end World

namespace Machine

open World

variable {interpreter : Interpreter κ σ} {r : Registry κ}

theorem evolved_program (m : ModuleId) : Passes Evolved (program interpreter r m) := by
  unfold program
  cases known : r.get? m with
  | none => exact passes_throw passing_evolved _
  | some i =>
    cases home : i.environment with
    | none =>
      simp only [home]
      exact passes_throw passing_evolved _
    | some e =>
      simp only [home]
      exact evolved_runModule interpreter

/-- So do modules that are run one after the other. -/
theorem evolved_runSearch (stop : Option EvalError) (order : List (ModuleId × List ModuleId))
    (w : World κ σ) : Evolved w (runSearch interpreter r stop order w).2.2 := by
  induction order generalizing w with
  | nil => exact passing_evolved.refl w
  | cons entry rest ih =>
    have here : Evolved w (program interpreter r entry.1 w).2 := evolved_program entry.1 w
    unfold runSearch at ih ⊢
    simp only [runInOrder]
    rcases result : program interpreter r entry.1 w with ⟨_ | _ | _, w'⟩ <;> rw [result] at here
    · exact here
    · exact here
    · exact passing_evolved.trans _ _ _ here (ih w')

end Machine
end MixedModules
