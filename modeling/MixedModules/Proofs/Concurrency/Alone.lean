import MixedModules.Proofs.Concurrency.Traffic

/-! A traversal alone.

Where no other traversal is under way, the steps of a traversal are those of an evaluation: it
leaves the modules that the evaluation leaves, with the same outcome. -/
namespace MixedModules
open Relation

variable {κ σ : Type}

/-- A traversal that takes all steps. -/
def Walk.Goes (t : Nat) : Registry κ × Walk → Registry κ × Walk → Prop :=
  ReflTransGen fun before after => before.2.Moves before.1 t after.2 after.1

theorem Walk.Moves.goes {r r' : Registry κ} {t : Nat} {w w' : Walk} (moves : w.Moves r t w' r') :
    Walk.Goes t (r, w) (r', w') :=
  .single moves

theorem Walk.Goes.trans {t : Nat} {a b c : Registry κ × Walk} (first : Walk.Goes t a b)
    (second : Walk.Goes t b c) : Walk.Goes t a c :=
  ReflTransGen.trans first second

namespace Machine

variable {interpreter : Interpreter κ σ} {t depth : Nat} {m : ModuleId} {c : ComponentId}
  {root : Bool} {i : Instance κ} {r : Registry κ} {w : World κ σ} {outcome : Except EvalError Unit}
  {machine : Machine κ σ} {below : List Frame} {visit : ModuleId → Run (Machine κ σ) Unit}

/-- What a visit does is what the steps of the traversal do. -/
def Walks (t : Nat) (visit : ModuleId → Run (Machine κ σ) Unit) : Prop :=
  ∀ m r w outcome machine, visit m ⟨r, w⟩ = (some outcome, machine) → ∀ below,
    Walk.Goes t (r, ⟨.arriving m, below⟩) (machine.registry, ⟨.leaving m outcome, below⟩)

theorem instanceOf_unknown (absent : r.get? m = none) :
    (instanceOf m : Run (Machine κ σ) (Instance κ)) ⟨r, w⟩ =
      (some (.error (.notLinked m.text)), ⟨r, w⟩) := by
  unfold instanceOf
  rw [Run.bind_apply, Run.get_apply]
  simp only [absent]
  rfl

theorem acquire_missing {identity : String} (absent : r.component? c = none) :
    (acquire t identity c : Run (Machine κ σ) Acquired) ⟨r, w⟩ =
      (some (.error (.notLinked identity)), ⟨r, w⟩) := by
  unfold acquire
  rw [Run.bind_apply, Run.get_apply]
  simp only [absent]
  rfl

/-- A visit of a component that another traversal holds has no outcome. -/
theorem visit_blocked {component : Component} (known : r.get? m = some i)
    (place : i.component = some c) (there : r.component? c = some component)
    (blocked : (component.acquire t).1 = .blocked) :
    (Machine.visit interpreter t (depth + 1) m ⟨r, w⟩).1 = none := by
  rw [Machine.visit, Run.bind_apply, instanceOf_apply known]
  simp only [place]
  rw [Run.bind_apply, acquire_apply there, blocked]
  rfl

/-- A module is entered. -/
theorem goes_execute (f : Frame) (spent : f.rest = [])
    (ran : execute interpreter f.module ⟨r, w⟩ = (some outcome, machine)) :
    Walk.Goes t (r, ⟨.visiting f, below⟩) (machine.registry, ⟨.ending f outcome, below⟩) := by
  unfold execute at ran
  cases known : r.get? f.module with
  | none =>
    rw [Run.bind_apply, instanceOf_unknown known] at ran
    cases ran
    exact (Walk.Moves.lost spent known).goes
  | some i =>
    rw [Run.bind_apply, instanceOf_apply known] at ran
    cases home : i.environment with
    | none =>
      simp only [home] at ran
      cases ran
      exact (Walk.Moves.homeless spent known home).goes
    | some e =>
      simp only [home] at ran
      rw [Run.bind_apply, modifyRegistry_apply] at ran
      have after : machine.registry = r.enter f.module := (congrArg (·.2.registry) ran).symm
      rw [after]
      exact (Walk.Moves.enter spent known home).goes.trans (Walk.Moves.finish outcome).goes

/-- What a module depends on is visited up to the first failure, and then the module is entered. -/
theorem goes_body (walks : Walks t visit) (f : Frame) {targets : List ModuleId}
    (rest : f.rest = targets)
    (ran : (do targets.forM visit; execute interpreter f.module : Run (Machine κ σ) Unit) ⟨r, w⟩ =
      (some outcome, machine)) (below : List Frame) :
    ∃ left, Walk.Goes t (r, ⟨.visiting f, below⟩)
      (machine.registry, ⟨.ending { f with rest := left } outcome, below⟩) := by
  induction targets generalizing f r w with
  | nil => exact ⟨f.rest, goes_execute f rest ran⟩
  | cons target targets ih =>
    have descend : Walk.Goes t (r, ⟨.visiting f, below⟩) (r, ⟨.arriving target, f :: below⟩) :=
      (Walk.Moves.descend (by rw [rest]; rfl)).goes
    rw [Run.bind_apply, Run.forM_cons_apply, Run.bind_apply] at ran
    rcases visited : visit target ⟨r, w⟩ with ⟨_ | _ | ⟨⟩, between⟩
    · rw [visited] at ran
      cases ran
    · rw [visited] at ran
      cases ran
      have goes := descend.trans (walks target r w _ _ visited (f :: below))
      exact ⟨f.rest, goes.trans Walk.Moves.fail.goes⟩
    · rw [visited] at ran
      have goes := descend.trans (walks target r w _ _ visited (f :: below))
      have back := goes.trans Walk.Moves.resume.goes
      have body : (do targets.forM visit; execute interpreter f.module : Run (Machine κ σ) Unit)
          between = (some outcome, machine) := by rwa [Run.bind_apply]
      obtain ⟨left, goes⟩ := ih { f with rest := f.rest.tail } (by rw [rest]; rfl) body
      exact ⟨left, back.trans goes⟩

/-- A module is begun, and its outcome recorded. -/
theorem goes_module (walks : Walks t visit) (known : r.get? m = some i)
    (ran : evaluateModule interpreter visit m ⟨r, w⟩ = (some outcome, machine)) :
    Walk.Goes t (r, ⟨.beginning m c root, below⟩)
      (machine.registry, ⟨Frame.close ⟨m, c, root, []⟩ outcome, below⟩) := by
  rw [evaluateModule_apply visit known] at ran
  rcases body : (do i.targets.forM visit; execute interpreter m : Run (Machine κ σ) Unit)
    ⟨r.setProgress m .inProgress, w⟩ with ⟨ended, after⟩
  rw [body] at ran
  cases ran
  obtain ⟨left, goes⟩ := goes_body walks ⟨m, c, root, i.targets⟩ rfl body below
  have recorded := (Walk.Moves.begin known).goes.trans (goes.trans Walk.Moves.record.goes)
  cases outcome <;> exact recorded

/-- A visit is a walk that comes from the module and leaves it. -/
theorem walks_visit (interpreter : Interpreter κ σ) (t depth : Nat) :
    Walks t (Machine.visit interpreter t depth) := by
  induction depth with
  | zero =>
    intro m r w outcome machine ran
    cases ran
  | succ depth ih =>
    intro m r w outcome machine ran below
    cases known : r.get? m with
    | none =>
      rw [Machine.visit, Run.bind_apply, instanceOf_unknown known] at ran
      cases ran
      exact (Walk.Moves.unknown known).goes
    | some i => ?_
    cases place : i.component with
    | none =>
      rw [Machine.visit, Run.bind_apply, instanceOf_apply known] at ran
      simp only [place] at ran
      cases ran
      exact (Walk.Moves.unlinked known place).goes
    | some c => ?_
    cases there : r.component? c with
    | none =>
      rw [Machine.visit, Run.bind_apply, instanceOf_apply known] at ran
      simp only [place] at ran
      rw [Run.bind_apply, acquire_missing there] at ran
      cases ran
      exact (Walk.Moves.missing known place there).goes
    | some component => ?_
    have asked : (component.acquire t).1 ≠ .blocked := fun blocked => by
      have none : (Machine.visit interpreter t (depth + 1) m ⟨r, w⟩).1 = none :=
        visit_blocked known place there blocked
      rw [ran] at none
      cases none
    have taken : Walk.Goes t (r, ⟨.arriving m, below⟩) _ :=
      (Walk.Moves.acquire known place there asked).goes
    rcases component with ⟨members, free | holder | released⟩
    · rw [visit_free known place there rfl] at ran
      rcases module : evaluateModule interpreter (Machine.visit interpreter t depth) m
        ⟨r.setComponent c ⟨members, .held t⟩, w⟩ with ⟨ended, after⟩
      rw [module] at ran
      cases ran
      have goes := taken.trans (goes_module ih known module)
      cases outcome with
      | error e => exact goes.trans (Walk.Moves.sweep.goes.trans Walk.Moves.release.goes)
      | ok _ => exact goes.trans Walk.Moves.release.goes
    · by_cases same : holder = t
      · subst same
        rw [visit_held known place there rfl] at ran
        simp only [Component.acquire, if_true, Registry.setComponent_self there] at taken
        cases progress : i.progress with
        | notStarted =>
          simp only [progress] at ran
          have joined := taken.trans (Walk.Moves.join known progress).goes
          have goes := joined.trans (goes_module ih known ran)
          cases outcome <;> exact goes
        | errored e | inProgress | completed =>
          have begun : i.progress ≠ .notStarted := by simp [progress]
          have looked := taken.trans (Walk.Moves.look known begun).goes
          simp only [progress] at ran looked
          cases ran
          exact looked
      · exact absurd (by simp [Component.acquire, same]) asked
    · rw [visit_released known place there rfl] at ran
      simp only [Component.acquire, Registry.setComponent_self there] at taken
      have met := taken.trans (Walk.Moves.meet known).goes
      cases progress : i.progress <;> simp only [progress] at ran met <;> cases ran <;> exact met

end Machine

namespace Traffic

theorem run_of_goes {t : Nat} {r r' : Registry κ} {w w' : Walk} (goes : Walk.Goes t (r, w) (r', w'))
    {walks : Nat → Option Walk} (here : walks t = some w) :
    ReflTransGen Next ⟨r, walks⟩ ⟨r', Function.update walks t (some w')⟩ := by
  generalize last : (r', w') = after at goes
  induction goes generalizing r' w' with
  | refl =>
    cases last
    rw [← here, Function.update_eq_self]
  | @tail between after _ moves ih =>
    subst last
    have now : Function.update walks t (some between.2) t = some between.2 := Function.update_self ..
    have step := Steps.move (s := ⟨between.1, Function.update walks t (some between.2)⟩) now moves
    rw [Function.update_idem] at step
    exact (ih rfl).tail ⟨t, step⟩

/-- An evaluation is one of the ways on which a traversal can go, and the others stay as they
are. -/
theorem run_of_evaluate {s : Traffic κ} {interpreter : Interpreter κ σ} {t : Nat}
    {entry : ModuleId} {w : World κ σ} {outcome : Except EvalError Unit} {machine : Machine κ σ}
    (unused : s.walks t = none)
    (ran : Machine.evaluate interpreter t entry ⟨s.registry, w⟩ = (some outcome, machine)) :
    ReflTransGen Next s
      ⟨machine.registry, Function.update s.walks t (some ⟨.leaving entry outcome, []⟩)⟩ := by
  unfold Machine.evaluate at ran
  rw [Run.bind_apply, Run.get_apply] at ran
  have goes := Machine.walks_visit interpreter t _ entry s.registry w outcome machine ran []
  have here : Function.update s.walks t (some ⟨.arriving entry, []⟩) t = some _ :=
    Function.update_self ..
  have run := run_of_goes goes here
  rw [Function.update_idem] at run
  exact run.head ⟨t, .start entry unused⟩

end Traffic
end MixedModules
