import MixedModules.Evaluation.Traversal
import MixedModules.Proofs.Evaluation.PostOrder
import MixedModules.Proofs.Evaluation.Stage
import MixedModules.Proofs.Execution.Ending

/-! A traversal runs modules in post-order.

The traversal finds its way by claims and progress, which it changes as it goes, while
the plain search knows only what was there before. Each step of one is a step of the
other: the stack of the traversal is the path of the search, and what the traversal
has completed the search has seen. -/
namespace MixedModules
open Relation

variable {κ σ : Type}

namespace Registry

/-- Records how the evaluation of a module ended. -/
def ending (r : Registry κ) (m : ModuleId) : Option (Except EvalError Unit) → Registry κ
  | none => r
  | some (.ok _) => r.setProgress m .completed
  | some (.error e) => r.setProgress m (.errored e)

/-- Gives up the claim of a component whose evaluation ended. -/
def closing (r : Registry κ) (c : ComponentId) : Option (Except EvalError Unit) → Registry κ
  | none => r
  | some (.ok _) => r.release c
  | some (.error e) => (r.sweep c e).release c

@[simp] theorem entered_ending (r : Registry κ) (m : ModuleId)
    (outcome : Option (Except EvalError Unit)) : (r.ending m outcome).entered = r.entered := by
  rcases outcome with _ | _ | _ <;> rfl

@[simp] theorem entered_closing (r : Registry κ) (c : ComponentId)
    (outcome : Option (Except EvalError Unit)) : (r.closing c outcome).entered = r.entered := by
  rcases outcome with _ | _ | _ <;> simp [closing]

/-- The evaluation of a module has begun, and may have ended. -/
def Begun (r : Registry κ) (m : ModuleId) : Prop :=
  ∃ progress, r.progressOf? m = some progress ∧ progress ≠ .notStarted

namespace Begun

variable {r : Registry κ} {m x : ModuleId}

theorem modify {change : Instance κ → Instance κ} (begun : r.Begun x)
    (kept : ∀ i, i.progress ≠ .notStarted → (change i).progress ≠ .notStarted) :
    (r.modify m change).Begun x := by
  obtain ⟨progress, held, spent⟩ := begun
  obtain ⟨i, known, rfl⟩ := progressOf?_eq_some_iff.mp held
  by_cases same : m = x
  · refine ⟨(change i).progress, progressOf?_eq_some_iff.mpr ⟨change i, ?_, rfl⟩, kept i spent⟩
    rw [get?_modify, if_pos same, known]
    rfl
  · refine ⟨i.progress, progressOf?_eq_some_iff.mpr ⟨i, ?_, rfl⟩, spent⟩
    rw [get?_modify, if_neg same, known]

theorem setProgress {progress : Progress} (begun : r.Begun x) (spent : progress ≠ .notStarted) :
    (r.setProgress m progress).Begun x :=
  begun.modify fun _ _ => spent

theorem ending {outcome : Option (Except EvalError Unit)} (begun : r.Begun x) :
    (r.ending m outcome).Begun x := by
  rcases outcome with _ | _ | _
  · exact begun
  · exact begun.setProgress (by simp)
  · exact begun.setProgress (by simp)

theorem release {c : ComponentId} (begun : r.Begun x) : (r.release c).Begun x := by
  unfold Registry.release
  cases r.component? c with
  | none => exact begun
  | some component => exact begun

theorem sweep {c : ComponentId} {e : EvalError} (begun : r.Begun x) : (r.sweep c e).Begun x := by
  unfold Registry.sweep
  cases r.component? c with
  | none => exact begun
  | some component =>
    simp only
    unfold Registry.fail
    induction component.members generalizing r with
    | nil => exact begun
    | cons first rest ih =>
      refine ih (begun.modify fun i spent => ?_)
      by_cases completed : i.progress = .completed
      · simp [completed]
      · simp [completed]

theorem closing {c : ComponentId} {outcome : Option (Except EvalError Unit)} (begun : r.Begun x) :
    (r.closing c outcome).Begun x := by
  rcases outcome with _ | _ | _
  · exact begun
  · exact begun.sweep.release
  · exact begun.release

end Begun
end Registry

namespace Machine

variable {r : Registry κ} {w : World κ σ} {m : ModuleId} {i : Instance κ} {c : ComponentId}
  {component : Component} {traversal depth : Nat} {interpreter : Interpreter κ σ}

/-! ## What each step computes -/

theorem modifyRegistry_apply (change : Registry κ → Registry κ) (machine : Machine κ σ) :
    modifyRegistry change machine =
      (some (.ok ⟨⟩), { machine with registry := change machine.registry }) := rfl

theorem instanceOf_apply (known : r.get? m = some i) :
    (instanceOf m : Run (Machine κ σ) (Instance κ)) ⟨r, w⟩ = (some (.ok i), ⟨r, w⟩) := by
  unfold instanceOf
  rw [Run.bind_apply, Run.get_apply]
  simp only [known]
  rfl

theorem acquire_apply (known : r.component? c = some component) (identity : String) :
    (acquire traversal identity c : Run (Machine κ σ) Acquired) ⟨r, w⟩ =
      (some (.ok (component.acquire traversal).1),
        ⟨r.setComponent c (component.acquire traversal).2, w⟩) := by
  unfold acquire
  rw [Run.bind_apply, Run.get_apply]
  simp only [known]
  rfl

/-- What the first traversal to reach a module runs for it. -/
def program (interpreter : Interpreter κ σ) (r : Registry κ) (m : ModuleId) :
    Run (World κ σ) Unit :=
  match r.get? m with
  | none => throw (.notLinked m.text)
  | some i =>
    match i.environment with
    | none => throw (.notLinked i.identity)
    | some e => World.runModule interpreter e i.record

theorem execute_apply (known : r.get? m = some i) (linked : i.isLinked = true) :
    execute interpreter m ⟨r, w⟩ =
      ((program interpreter r m w).1, ⟨r.enter m, (program interpreter r m w).2⟩) := by
  obtain ⟨e, environment⟩ := Option.isSome_iff_exists.mp linked
  unfold execute program
  rw [Run.bind_apply, instanceOf_apply known]
  simp only [known, environment]
  rw [Run.bind_apply, modifyRegistry_apply]
  rfl

theorem evaluateModule_apply (visit : ModuleId → Run (Machine κ σ) Unit)
    (known : r.get? m = some i) :
    evaluateModule interpreter visit m ⟨r, w⟩ =
      let (outcome, after) := (do i.targets.forM visit; execute interpreter m :
        Run (Machine κ σ) Unit) ⟨r.setProgress m .inProgress, w⟩
      (outcome, { after with registry := after.registry.ending m outcome }) := by
  have known' : (r.setProgress m .inProgress).get? m = some { i with progress := .inProgress } := by
    rw [Registry.setProgress, Registry.get?_modify, if_pos rfl, known]
    rfl
  unfold evaluateModule
  rw [Run.bind_apply, modifyRegistry_apply]
  simp only
  rw [Run.bind_apply, instanceOf_apply known']
  simp only
  have targets : Instance.targets { i with progress := .inProgress } = i.targets := rfl
  rw [Run.bind_apply, targets, Run.attempt]
  rcases (do i.targets.forM visit; execute interpreter m : Run (Machine κ σ) Unit)
    ⟨r.setProgress m .inProgress, w⟩ with ⟨_ | _ | _, after⟩ <;> rfl

/-- A visit in a component that the traversal holds. -/
theorem visit_held (known : r.get? m = some i) (place : i.component = some c)
    (held : r.component? c = some component) (claim : component.claim = .held traversal) :
    visit interpreter traversal (depth + 1) m ⟨r, w⟩ =
      match i.progress with
      | .notStarted => evaluateModule interpreter (visit interpreter traversal depth) m ⟨r, w⟩
      | .errored e => (some (.error e), ⟨r, w⟩)
      | .inProgress | .completed => (some (.ok ()), ⟨r, w⟩) := by
  have acquired : component.acquire traversal = (.reentered, component) := by
    simp [Component.acquire, claim]
  rw [visit, Run.bind_apply, instanceOf_apply known]
  simp only [place]
  rw [Run.bind_apply, acquire_apply held, acquired]
  simp only [Registry.setComponent_self held]
  rw [Run.bind_apply, instanceOf_apply known]
  cases progress : i.progress <;> simp only [progress] <;> rfl

/-- A visit in a component that is done with. -/
theorem visit_released (known : r.get? m = some i) (place : i.component = some c)
    (held : r.component? c = some component) (claim : component.claim = .released) :
    visit interpreter traversal (depth + 1) m ⟨r, w⟩ =
      match i.progress with
      | .errored e => (some (.error e), ⟨r, w⟩)
      | _ => (some (.ok ()), ⟨r, w⟩) := by
  have acquired : component.acquire traversal = (.released, component) := by
    simp [Component.acquire, claim]
  rw [visit, Run.bind_apply, instanceOf_apply known]
  simp only [place]
  rw [Run.bind_apply, acquire_apply held, acquired]
  simp only [Registry.setComponent_self held]
  rw [Run.bind_apply, instanceOf_apply known]
  cases progress : i.progress <;> simp only [progress] <;> rfl

/-- A visit in a component that nobody holds: the claim is taken, and given up when the
module is finished. -/
theorem visit_free (known : r.get? m = some i) (place : i.component = some c)
    (held : r.component? c = some component) (claim : component.claim = .free) :
    visit interpreter traversal (depth + 1) m ⟨r, w⟩ =
      let (outcome, after) := evaluateModule interpreter (visit interpreter traversal depth) m
        ⟨r.setComponent c { component with claim := .held traversal }, w⟩
      (outcome, { after with registry := after.registry.closing c outcome }) := by
  have acquired : component.acquire traversal =
      (.root, { component with claim := .held traversal }) := by
    simp [Component.acquire, claim]
  rw [visit, Run.bind_apply, instanceOf_apply known]
  simp only [place]
  rw [Run.bind_apply, acquire_apply held, acquired]
  simp only
  rw [Run.bind_apply, Run.attempt]
  rcases evaluateModule interpreter (visit interpreter traversal depth) m
    ⟨r.setComponent c { component with claim := .held traversal }, w⟩ with ⟨_ | _ | _, after⟩ <;> rfl

end Machine

/-! ## What is left behind -/

namespace Entering

/-- A module at the moment of the entering. -/
def get? (x : Entering κ) (m : ModuleId) : Option (Instance κ) := x.instances[m.index]?

/-- The entered module depends on completed modules only, and on modules of its own
component that are on the way down to it. -/
def Ready (x : Entering κ) (path : List ModuleId) : Prop :=
  ∃ i, x.get? x.module = some i ∧ ∀ target ∈ i.targets, ∃ j, x.get? target = some j ∧
    (j.progress = .completed ∨
      j.progress = .inProgress ∧ target ∈ path ∧ j.component = i.component)

/-- The entering of an entry of a search. -/
def Of (x : Entering κ) (entry : ModuleId × List ModuleId) : Prop :=
  x.module = entry.1 ∧ x.Ready entry.2

end Entering

/-- A traversal on its way down `path` that has seen `seen`, where nothing failed. -/
def Registry.Under (r : Registry κ) (traversal : Nat) (path seen : List ModuleId)
    (now : Registry κ) : Prop :=
  ∃ e done, r.At traversal e ⟨path, done, []⟩ now ∧ Stage.Sound r ⟨path, done, []⟩ ∧
    ∀ m, m ∈ seen ↔ m ∈ path ∨ m ∈ done

/-- How a part of a traversal ends. Where a call has no outcome, neither has the
traversal, and nothing comes after it. -/
def Registry.Leaves (r : Registry κ) (traversal : Nat) (path after : List ModuleId)
    (now : Registry κ) : Option (Except EvalError Unit) → Prop
  | none => True
  | some (.ok _) => r.Under traversal path after now
  | some (.error e) => ∃ done doomed, r.At traversal e ⟨path, done, doomed⟩ now ∧
      Stage.Sound r ⟨path, done, doomed⟩

namespace Machine

/-- What is run for the entries of a search, one after the other. -/
def runSearch (interpreter : Interpreter κ σ) (r : Registry κ) (stop : Option EvalError)
    (order : List (ModuleId × List ModuleId)) (w : World κ σ) :
    List (ModuleId × List ModuleId) × Option (Except EvalError Unit) × World κ σ :=
  runInOrder (fun entry => program interpreter r entry.1) stop order w

theorem runSearch_append {interpreter : Interpreter κ σ} {r : Registry κ} {stop : Option EvalError}
    (first second : List (ModuleId × List ModuleId)) (w : World κ σ) :
    runSearch interpreter r stop (first ++ second) w =
      match runSearch interpreter r none first w with
      | (ran, some (.ok _), w) =>
        let (more, outcome, w) := runSearch interpreter r stop second w
        (ran ++ more, outcome, w)
      | other => other := by
  unfold runSearch
  rw [runInOrder_append]
  rcases runInOrder _ none first w with ⟨_, _ | _ | _, _⟩ <;> rfl

/-- A part of a traversal that started at `now` and `w` has done what a search tells. -/
structure Followed (interpreter : Interpreter κ σ) (r : Registry κ) (traversal : Nat)
    (path after : List ModuleId) (order : List (ModuleId × List ModuleId))
    (stop : Option EvalError) (now : Registry κ) (w : World κ σ)
    (result : Option (Except EvalError Unit) × Machine κ σ) : Prop where
  outcome : result.1 = (runSearch interpreter r stop order w).2.1
  world : result.2.world = (runSearch interpreter r stop order w).2.2
  entered : ∃ news, result.2.registry.entered.events = news ++ now.entered.events ∧
    List.Forall₂ Entering.Of news.reverse (runSearch interpreter r stop order w).1
  kept : ∀ m, now.Begun m → result.2.registry.Begun m
  begun : ∀ entry ∈ (runSearch interpreter r stop order w).1, result.2.registry.Begun entry.1
  ends : r.Leaves traversal path after result.2.registry result.1

namespace Followed

variable {interpreter : Interpreter κ σ} {r now : Registry κ} {traversal : Nat}
  {path between after : List ModuleId} {first second order : List (ModuleId × List ModuleId)}
  {stop : Option EvalError} {e : EvalError} {w : World κ σ} {x y : Run (Machine κ σ) Unit}

/-- What happens around a part of a traversal, before it and after it. -/
theorem around {path' after' : List ModuleId} {now' : Registry κ}
    {result result' : Option (Except EvalError Unit) × Machine κ σ}
    (followed : Followed interpreter r traversal path after order stop now w result)
    (before : now'.entered = now.entered ∧ ∀ m, now'.Begun m → now.Begun m)
    (same : result'.1 = result.1 ∧ result'.2.world = result.2.world ∧
      result'.2.registry.entered = result.2.registry.entered)
    (keeps : ∀ m, result.2.registry.Begun m → result'.2.registry.Begun m)
    (ends : r.Leaves traversal path' after' result'.2.registry result'.1) :
    Followed interpreter r traversal path' after' order stop now' w result' := by
  obtain ⟨outcome, world, ⟨news, events, told⟩, kept, begun, _⟩ := followed
  obtain ⟨sameOutcome, sameWorld, sameEvents⟩ := same
  refine ⟨sameOutcome.trans outcome, sameWorld.trans world, ⟨news, ?_, told⟩,
    fun m spent => keeps m (kept m (before.2 m spent)), fun x ran => keeps x.1 (begun x ran), ends⟩
  rw [sameEvents, before.1, events]

/-- What has nothing to run changes nothing. -/
theorem nothing (under : r.Under traversal path after now) :
    Followed interpreter r traversal path after [] none now w (some (.ok ()), ⟨now, w⟩) :=
  ⟨rfl, rfl, ⟨[], rfl, .nil⟩, fun _ spent => spent, by simp [runSearch, runInOrder], under⟩

/-- A search that stops before it runs anything. -/
theorem stopped (under : r.Under traversal path after now) :
    Followed interpreter r traversal path after [] (some e) now w (some (.error e), ⟨now, w⟩) := by
  obtain ⟨_, done, here, sound, _⟩ := under
  exact ⟨rfl, rfl, ⟨[], rfl, .nil⟩, fun _ spent => spent, by simp [runSearch, runInOrder],
    done, [], here.rename, sound⟩

/-- A search that stops for a failure does not succeed. -/
theorem stop_eq_none {result : Option (Except EvalError Unit) × Machine κ σ}
    (followed : Followed interpreter r traversal path after order stop now w result)
    (succeeds : result.1 = some (.ok ())) : stop = none := by
  rw [followed.outcome] at succeeds
  exact (runInOrder_ok_iff.mp succeeds).1

/-- Nothing follows a search that stops. -/
theorem append_stopped
    (followed : Followed interpreter r traversal path between order (some e) now w (x ⟨now, w⟩)) :
    Followed interpreter r traversal path after order (some e) now w
      ((do x; y : Run (Machine κ σ) Unit) ⟨now, w⟩) := by
  have succeeds := followed.stop_eq_none
  obtain ⟨outcome, world, entered, kept, begun, ends⟩ := followed
  rw [Run.bind_apply]
  rcases result : x ⟨now, w⟩ with ⟨_ | _ | _, machine⟩
  · rw [result] at outcome world entered kept begun
    exact ⟨outcome, world, entered, kept, begun, trivial⟩
  · rw [result] at outcome world entered kept begun ends
    exact ⟨outcome, world, entered, kept, begun, ends⟩
  · rw [result] at succeeds
    cases succeeds rfl

/-- One part of a traversal after the other. -/
theorem append
    (followed : Followed interpreter r traversal path between first none now w (x ⟨now, w⟩))
    (follows : ∀ now' w', r.Under traversal path between now' →
      Followed interpreter r traversal path after second stop now' w' (y ⟨now', w'⟩)) :
    Followed interpreter r traversal path after (first ++ second) stop now w
      ((do x; y : Run (Machine κ σ) Unit) ⟨now, w⟩) := by
  obtain ⟨outcome, world, ⟨news, events, told⟩, kept, begun, ends⟩ := followed
  have ran : runSearch interpreter r stop (first ++ second) w = _ := runSearch_append first second w
  rw [Run.bind_apply]
  rcases result : x ⟨now, w⟩ with ⟨reached, now', w'⟩
  rcases search : runSearch interpreter r none first w with ⟨names, reached', w''⟩
  rw [result, search] at outcome world
  rw [search] at told ran begun
  rw [result] at events kept begun ends
  cases outcome
  cases world
  rcases reached with _ | _ | _
  · exact ⟨by rw [ran], by rw [ran], ⟨news, events, by rwa [ran]⟩, kept, by rwa [ran], trivial⟩
  · exact ⟨by rw [ran], by rw [ran], ⟨news, events, by rwa [ran]⟩, kept, by rwa [ran], ends⟩
  · obtain ⟨outcome, world, ⟨more, events', told'⟩, kept', begun', ends'⟩ := follows now' w' ends
    refine ⟨?_, ?_, ⟨more ++ news, ?_, ?_⟩, fun m spent => kept' m (kept m spent), fun x member => ?_,
      ends'⟩
    · rw [ran]
      exact outcome
    · rw [ran]
      exact world
    · rw [events', events, List.append_assoc]
    · rw [ran, List.reverse_append]
      exact List.rel_append told told'
    · rw [ran] at member
      rcases List.mem_append.mp member with early | late
      · exact kept' x.1 (begun x early)
      · exact begun' x late

end Followed
section Steps

variable {interpreter : Interpreter κ σ} {r now : Registry κ} {traversal depth : Nat}
  {path seen between after : List ModuleId} {order : List (ModuleId × List ModuleId)}
  {stop : Option EvalError} {m : ModuleId} {i : Instance κ} {w : World κ σ}
  (linkage : r.Linkage) (settled : r.Settled)

include linkage

/-- A module is entered when all it depends on is completed or on the way down. -/
theorem ready_of_under {e : EvalError} {done : List ModuleId}
    (here : r.At traversal e ⟨m :: path, done, []⟩ now)
    (sound : Stage.Sound r ⟨m :: path, done, []⟩) (known : r.get? m = some i)
    (covered : ∀ target ∈ i.targets,
      target ∈ m :: path ∨ target ∈ done ∨ r.progressOf? target = some .completed) :
    Entering.Ready ⟨m, now.instances⟩ (m :: path) := by
  have reads : ∀ target, Entering.get? ⟨m, now.instances⟩ target = now.get? target := fun _ => rfl
  refine ⟨_, (reads m).trans ((here.modules m).trans (by rw [known]; rfl)), fun target member => ?_⟩
  have depends : r.DependsOn m target := ⟨i, known, member⟩
  obtain ⟨linked, _⟩ := sound.fresh m (.inl List.mem_cons_self)
  obtain ⟨j, known', _⟩ := (linkage.closed m linked).2 target depends
  refine ⟨_, (reads target).trans ((here.modules target).trans (by rw [known']; rfl)), ?_⟩
  by_cases stacked : target ∈ m :: path
  · right
    refine ⟨by simp only [Stage.progress, if_pos stacked], stacked, ?_⟩
    have shares : r.componentOf? target = r.componentOf? m := by
      rcases List.mem_cons.mp stacked with rfl | stacked
      · rfl
      · exact sound.shares_component linkage depends stacked
    simpa only [Registry.componentOf?, known, known', Option.bind_some] using shares
  · left
    rcases (covered target member).resolve_left stacked with finished | completed
    · simp only [Stage.progress, if_neg stacked, if_pos finished]
    · have kept := (here.kept sound (by simp [completed])).trans completed
      rw [here.progressOf?, Registry.progressOf?, known'] at kept
      exact Option.some.inj kept

/-- The step that ends a search below a module: the module itself is entered. -/
theorem execute_follows (known : r.get? m = some i)
    (covered : ∀ target ∈ i.targets, target ∈ between ∨ r.progressOf? target = some .completed)
    (under : r.Under traversal (m :: path) between now) :
    Followed interpreter r traversal (m :: path) between [(m, m :: path)] none now w
      (execute interpreter m ⟨now, w⟩) := by
  obtain ⟨e, done, here, sound, seen⟩ := under
  obtain ⟨linked, _⟩ := sound.fresh m (.inl List.mem_cons_self)
  have known' := here.modules m
  rw [known, Option.map_some] at known'
  have linked' : Instance.isLinked
      { i with progress := Stage.progress ⟨m :: path, done, []⟩ e m i.progress } = true := by
    obtain ⟨j, same, held⟩ := linked
    cases known.symm.trans same
    exact held
  have same : program interpreter now m = program interpreter r m := by
    unfold program
    rw [known', known]
  have ready := ready_of_under linkage here sound known fun target member => by
    rcases covered target member with reached | completed
    · exact ((seen target).mp reached).imp_right .inl
    · exact .inr (.inr completed)
  have begun : r.Under traversal (m :: path) between (now.enter m) :=
    ⟨e, done, ⟨here.modules, here.components⟩, sound, seen⟩
  have told : (now.enter m).entered.events = [⟨m, now.instances⟩] ++ now.entered.events :=
    Chronicle.events_add _ _
  rw [execute_apply known' linked', same]
  have ran : runSearch interpreter r none [(m, m :: path)] w =
      ([(m, m :: path)], (program interpreter r m w).1, (program interpreter r m w).2) := by
    unfold runSearch runInOrder
    rcases program interpreter r m w with ⟨_ | _ | _, _⟩ <;> rfl
  refine ⟨by rw [ran], by rw [ran], ⟨_, told, ?_⟩, fun _ spent => spent, fun x member => ?_, ?_⟩
  · rw [ran]
    exact .cons ⟨rfl, ready⟩ .nil
  · rw [ran, List.mem_singleton] at member
    subst member
    refine ⟨.inProgress, Registry.progressOf?_eq_some_iff.mpr ⟨_, known', ?_⟩, by simp⟩
    simp [Stage.progress]
  · rcases (program interpreter r m w).1 with _ | _ | _
    · trivial
    · exact ⟨done, [], ⟨here.rename.modules, here.components⟩, sound⟩
    · exact begun

/-- A module that leaves the way down as completed is one more that is completed. -/
private theorem under_complete {e : EvalError} {done : List ModuleId} (settled : r.Settled)
    (sound : Stage.Sound r ⟨m :: path, done, []⟩) (seen : ∀ x, x ∈ between ↔ x ∈ m :: path ∨ x ∈ done)
    (covered : ∀ target, r.DependsOn m target →
      target ∈ between ∨ r.progressOf? target = some .completed)
    {later : Registry κ} (left : r.At traversal e ⟨path, m :: done, []⟩ later) :
    r.Under traversal path between later := by
  refine ⟨e, m :: done, left, sound.complete linkage settled fun target depends => ?_, fun x => ?_⟩
  · rcases covered target depends with reached | completed
    · exact ((seen target).mp reached).imp_right .inl
    · exact .inr (.inr completed)
  · rw [seen, List.mem_cons, List.mem_cons]
    tauto

/-- How the end of a module is recorded while its component goes on. -/
private theorem leaves_inner {c : ComponentId} {outcome : Option (Except EvalError Unit)}
    (settled : r.Settled) (ends : r.Leaves traversal (m :: path) between now outcome)
    (place : r.componentOf? m = some c) (inner : ∃ x ∈ path, r.componentOf? x = some c)
    (covered : outcome = some (.ok ()) → ∀ target, r.DependsOn m target →
      target ∈ between ∨ r.progressOf? target = some .completed) :
    r.Leaves traversal path between (now.ending m outcome) outcome := by
  rcases outcome with _ | e | _
  · trivial
  · obtain ⟨done, doomed, here, sound⟩ := ends
    have unstacked := (List.nodup_cons.mp sound.once).1
    have undone : m ∉ done := fun finished => sound.apart m finished List.mem_cons_self
    refine ⟨done, m :: doomed, here.pop_inner linkage place inner rfl (fun x different => ?_)
      (fun before => ?_), sound.fail_inner (by rwa [place])⟩
    · exact ⟨by simp [different], Iff.rfl, by simp [different]⟩
    · simp [Stage.progress, unstacked, undone]
  · obtain ⟨e, done, here, sound, seen⟩ := ends
    have unstacked := (List.nodup_cons.mp sound.once).1
    refine under_complete linkage settled sound seen (covered rfl)
      (here.pop_inner linkage place inner rfl (fun x different => ?_) fun before => ?_)
    · exact ⟨by simp [different], by simp [different], Iff.rfl⟩
    · simp [Stage.progress, unstacked]

/-- How the end of a module is recorded when its component ends with it. -/
private theorem leaves_root {c : ComponentId} {component : Component}
    {outcome : Option (Except EvalError Unit)} (settled : r.Settled)
    (ends : r.Leaves traversal (m :: path) between now outcome)
    (held : r.component? c = some component) (member : m ∈ component.members)
    (untouched : ∀ x ∈ component.members, r.progressOf? x = some .notStarted)
    (root : ∀ x ∈ path, r.componentOf? x ≠ some c)
    (covered : outcome = some (.ok ()) → ∀ target, r.DependsOn m target →
      target ∈ between ∨ r.progressOf? target = some .completed) :
    r.Leaves traversal path between ((now.ending m outcome).closing c outcome) outcome := by
  have place := (Registry.At.member_iff linkage held).mp member
  rcases outcome with _ | e | _
  · trivial
  · obtain ⟨done, doomed, here, sound⟩ := ends
    have undone : m ∉ done := fun finished => sound.apart m finished List.mem_cons_self
    exact ⟨done, component.members ++ doomed,
      here.fail_root linkage held member root undone untouched,
      sound.fail_root linkage held member untouched⟩
  · obtain ⟨e, done, here, sound, seen⟩ := ends
    exact under_complete linkage settled sound seen (covered rfl)
      (here.complete_root linkage place root)

/-- Whoever waits is in a component that this traversal holds for a module on the way
down, or that nobody holds. -/
theorem claim_waiting {c : ComponentId} {component : Component} {done : List ModuleId}
    (sound : Stage.Sound r ⟨path, done, []⟩) (held : r.component? c = some component)
    (place : r.componentOf? m = some c) (undone : m ∉ done) (free : component.claim = .free) :
    (∃ x ∈ path, r.componentOf? x = some c) ∧
        Stage.claim ⟨path, done, []⟩ traversal component = .held traversal ∨
      (∀ x ∈ path, r.componentOf? x ≠ some c) ∧
        Stage.claim ⟨path, done, []⟩ traversal component = .free := by
  have inside : ∀ x, x ∈ component.members ↔ r.componentOf? x = some c := fun x =>
    Registry.At.member_iff linkage held
  by_cases inner : ∃ x ∈ path, r.componentOf? x = some c
  · refine .inl ⟨inner, ?_⟩
    obtain ⟨x, stacked, shares⟩ := inner
    have some_ : ∃ x ∈ component.members, x ∈ path := ⟨x, (inside x).mpr shares, stacked⟩
    simp only [Stage.claim, if_pos some_]
  · have root : ∀ x ∈ path, r.componentOf? x ≠ some c := fun x stacked shares =>
      inner ⟨x, stacked, shares⟩
    refine .inr ⟨root, ?_⟩
    have unheld : ¬ ∃ x ∈ component.members, x ∈ path := by
      rintro ⟨x, member, stacked⟩
      exact root x stacked ((inside x).mp member)
    have unfinished : ¬ ∃ x ∈ component.members, x ∈ done ∨ x ∈ [] := by
      rintro ⟨x, member, spent⟩
      have shares : r.componentOf? m = r.componentOf? x := place.trans ((inside x).mp member).symm
      rcases sound.balanced x spent m shares with finished | none | ⟨y, stacked, same⟩
      · exact undone finished
      · cases none
      · exact root y stacked (same.trans (shares.symm.trans place))
    simp only [Stage.claim, if_neg unheld, if_neg unfinished, free]

/-- The visit of a module that was not begun: everything below it is visited and it is
entered, with its component claimed meanwhile. -/
theorem visit_follows (settled : r.Settled) (under : r.Under traversal path seen now)
    (fresh : m ∉ seen) (known : r.get? m = some i) (waiting : i.progress = .notStarted)
    (linked : r.Linked m) (led : ∀ top ∈ path.head?, r.DependsOn top m)
    (covered : stop = none → ∀ target, r.DependsOn m target →
      target ∈ between ∨ r.progressOf? target = some .completed)
    (follows : ∀ now', r.Under traversal (m :: path) (m :: seen) now' →
      Followed interpreter r traversal (m :: path) between order stop now' w
        ((do i.targets.forM (visit interpreter traversal depth); execute interpreter m :
          Run (Machine κ σ) Unit) ⟨now', w⟩)) :
    Followed interpreter r traversal path between order stop now w
      (visit interpreter traversal (depth + 1) m ⟨now, w⟩) := by
  obtain ⟨e, done, here, sound, seen_iff⟩ := under
  have unstacked : m ∉ path := fun held => fresh ((seen_iff m).mpr (.inl held))
  have undone : m ∉ done := fun held => fresh ((seen_iff m).mpr (.inr held))
  have idle := Registry.progressOf?_eq_some_iff.mpr ⟨i, known, waiting⟩
  obtain ⟨c, place⟩ := (linkage.placed m).mp linked
  obtain ⟨component, held, member⟩ := (linkage.grouped.members m c).mp place
  obtain ⟨free, untouched⟩ := settled.untouched held member idle
  have known' : now.get? m = some i := by
    rw [here.modules, known]
    simp [Stage.progress, unstacked, undone]
  have place' : i.component = some c := by
    simpa [Registry.componentOf?, known] using place
  have held' := here.components c
  rw [held, Option.map_some] at held'
  have sound' := sound.push linked idle unstacked undone led
  -- Whoever holds the claim, the module is on the way down from here on.
  have begin_ : ∀ claimed : Registry κ, (∀ x, claimed.get? x = now.get? x) →
      (∀ c', claimed.component? c' = if c' = c
        then (r.component? c).map fun component => { component with claim := .held traversal }
        else now.component? c') →
      r.Under traversal (m :: path) (m :: seen) (claimed.setProgress m .inProgress) := by
    intro claimed same claims
    refine ⟨e, done, here.push linkage place same claims, sound', fun x => ?_⟩
    rw [List.mem_cons, List.mem_cons, seen_iff, or_assoc]
  rcases claim_waiting linkage sound held place undone free with
    ⟨inner, claim⟩ | ⟨root, claim⟩
  · rw [visit_held known' place' held' claim, waiting]
    simp only
    rw [evaluateModule_apply _ known']
    have followed := follows _ (begin_ now (fun _ => rfl) fun c' => by
      by_cases same : c' = c
      · rw [if_pos same, same, held', held, claim]
        rfl
      · rw [if_neg same])
    have leaves := leaves_inner linkage settled followed.ends place inner fun succeeds =>
      covered (followed.stop_eq_none succeeds)
    exact followed.around ⟨rfl, fun _ spent => spent.setProgress (by simp)⟩
      ⟨rfl, rfl, Registry.entered_ending ..⟩ (fun _ spent => spent.ending) leaves
  · have claimed : (now.setComponent c ⟨component.members, .held traversal⟩).get? m = some i :=
      (Registry.get?_setComponent ..).trans known'
    rw [visit_free known' place' held' claim, evaluateModule_apply _ claimed]
    have followed := follows _ (begin_ _ (fun _ => Registry.get?_setComponent ..) fun c' => by
      rw [Registry.component?_setComponent]
      by_cases same : c = c'
      · subst same
        rw [if_pos rfl, if_pos rfl, held', held]
        rfl
      · rw [if_neg same, if_neg (Ne.symm same)])
    have leaves := leaves_root linkage settled followed.ends held member untouched root
      fun succeeds => covered (followed.stop_eq_none succeeds)
    exact followed.around ⟨rfl, fun _ spent => spent.setProgress (by simp)⟩
      ⟨rfl, rfl, (Registry.entered_closing ..).trans (Registry.entered_ending ..)⟩
      (fun _ spent => spent.ending.closing) leaves

omit linkage in
/-- What was begun by this traversal or by an earlier one is in a component that this
traversal holds or that is done with. -/
theorem claim_begun {e : EvalError} {c : ComponentId} {component : Component}
    {done : List ModuleId} (settled : r.Settled)
    (held : r.component? c = some component) (member : m ∈ component.members)
    (known : r.get? m = some i)
    (begun : Stage.progress ⟨path, done, []⟩ e m i.progress ≠ .notStarted) :
    Stage.claim ⟨path, done, []⟩ traversal component = .held traversal ∨
      Stage.claim ⟨path, done, []⟩ traversal component = .released := by
  unfold Stage.claim
  by_cases stacked : ∃ x ∈ component.members, x ∈ path
  · exact .inl (if_pos stacked)
  right
  rw [if_neg stacked]
  by_cases spent : ∃ x ∈ component.members, x ∈ done ∨ x ∈ []
  · exact if_pos spent
  rw [if_neg spent]
  have unstacked : m ∉ path := fun inside => stacked ⟨m, member, inside⟩
  have undone : m ∉ done := fun inside => spent ⟨m, member, .inl inside⟩
  refine (settled.finished held member fun waiting => begun ?_).1
  obtain ⟨j, same, waiting⟩ := Registry.progressOf?_eq_some_iff.mp waiting
  cases known.symm.trans same
  simp [Stage.progress, unstacked, undone, waiting]

/-- The visit of a module that was begun finds what has come of it. -/
theorem visit_begun {e : EvalError} {done : List ModuleId} (settled : r.Settled)
    (here : r.At traversal e ⟨path, done, []⟩ now) (linked : r.Linked m)
    (known : now.get? m = some i) (begun : i.progress ≠ .notStarted) :
    visit interpreter traversal (depth + 1) m ⟨now, w⟩ =
      match i.progress with
      | .errored e => (some (.error e), ⟨now, w⟩)
      | _ => (some (.ok ()), ⟨now, w⟩) := by
  obtain ⟨c, place⟩ := (linkage.placed m).mp linked
  obtain ⟨component, held, member⟩ := (linkage.grouped.members m c).mp place
  obtain ⟨j, before, same⟩ := Option.map_eq_some_iff.mp ((here.modules m).symm.trans known)
  subst same
  have place' : j.component = some c := by
    simpa [Registry.componentOf?, before] using place
  have held' := here.components c
  rw [held, Option.map_some] at held'
  have claimed : Stage.claim _ traversal component = _ ∨ Stage.claim _ traversal component = _ :=
    claim_begun settled held member before begun
  rcases claimed with mine | released
  · rw [visit_held known place' held' mine]
    generalize Stage.progress ⟨path, done, []⟩ e m j.progress = progress at begun
    cases progress with
    | notStarted => exact absurd rfl begun
    | inProgress => rfl
    | completed => rfl
    | errored => rfl
  · exact visit_released known place' held' released

/-- What the search has seen, or what was completed before, the traversal passes over. -/
theorem visit_seen (settled : r.Settled) (under : r.Under traversal path seen now)
    (linked : r.Linked m) (finished : m ∈ seen ∨ r.progressOf? m = some .completed) :
    visit interpreter traversal (depth + 1) m ⟨now, w⟩ = (some (.ok ()), ⟨now, w⟩) := by
  obtain ⟨e, done, here, sound, seen_iff⟩ := under
  obtain ⟨i, known, _⟩ := id linked
  have known' := here.modules m
  rw [known, Option.map_some] at known'
  have spent : Stage.progress ⟨path, done, []⟩ e m i.progress = .inProgress ∨
      Stage.progress ⟨path, done, []⟩ e m i.progress = .completed := by
    unfold Stage.progress
    by_cases stacked : m ∈ path
    · exact .inl (if_pos stacked)
    · right
      rw [if_neg stacked]
      by_cases undone : m ∈ done
      · exact if_pos undone
      · have completed := finished.resolve_left fun held =>
          ((seen_iff m).mp held).elim stacked undone
        obtain ⟨j, same, completed⟩ := Registry.progressOf?_eq_some_iff.mp completed
        cases known.symm.trans same
        simp [undone, completed]
  have begun : Stage.progress ⟨path, done, []⟩ e m i.progress ≠ .notStarted := by
    rcases spent with spent | spent <;> simp [spent]
  rw [visit_begun linkage settled here linked known' begun]
  rcases spent with spent | spent <;> simp only [spent]

/-- What failed before fails again. -/
theorem visit_failed {e : EvalError} (settled : r.Settled)
    (under : r.Under traversal path seen now) (linked : r.Linked m)
    (failed : r.progressOf? m = some (.errored e)) :
    visit interpreter traversal (depth + 1) m ⟨now, w⟩ = (some (.error e), ⟨now, w⟩) := by
  obtain ⟨e', done, here, sound, _⟩ := under
  have kept := (here.kept sound (by simp [failed])).trans failed
  obtain ⟨i, known, failed⟩ := Registry.progressOf?_eq_some_iff.mp kept
  rw [visit_begun linkage settled here linked known (by simp [failed]), failed]

omit linkage in
/-- On no way down does a module come twice, so the depth is never used up. -/
theorem depth_left (under : r.Under traversal path seen now)
    (deep : r.size < depth + path.length) : ∃ rest, depth = rest + 1 := by
  obtain ⟨_, _, _, sound, _⟩ := under
  have short := Registry.length_le_size sound.once fun x stacked => by
    obtain ⟨i, known, _⟩ := (sound.fresh x (.inl stacked)).1
    exact Registry.lt_size_of_get? known
  exact ⟨depth - 1, by simp only at short; omega⟩

omit linkage in
/-- One module more on the way down makes up for one visit less below it. -/
theorem deep_below {n : Nat} (m : ModuleId) (deep : n < depth + 1 + path.length) :
    n < depth + (m :: path).length := by
  rw [List.length_cons]
  omega

/-- What a linked module depends on is linked, and it leads there. -/
theorem targets_below (linked : r.Linked m) (known : r.get? m = some i) :
    ∀ target ∈ i.targets, r.Linked target ∧ ∀ top ∈ (m :: path).head?, r.DependsOn top target := by
  intro target member
  have depends : r.DependsOn m target := ⟨i, known, member⟩
  refine ⟨(linkage.closed m linked).2 target depends, fun top first => ?_⟩
  cases first
  exact depends

/-- The visits of a traversal follow the search, from any point of it on. -/
theorem visits_follow {todo : List ModuleId} (settled : r.Settled)
    (search : PostOrder r path todo seen order stop after)
    (under : r.Under traversal path seen now) (deep : r.size < depth + path.length)
    (below : ∀ m ∈ todo, r.Linked m ∧ ∀ top ∈ path.head?, r.DependsOn top m) :
    Followed interpreter r traversal path after order stop now w
      (todo.forM (visit interpreter traversal depth) ⟨now, w⟩) := by
  induction search generalizing depth now w with
  | done => exact .nothing under
  | skip finished _ ih =>
    obtain ⟨rest, rfl⟩ := depth_left under deep
    have here := (below _ List.mem_cons_self).1
    rw [Run.forM_cons_apply, Run.bind_apply, visit_seen linkage settled under here finished]
    exact ih under deep fun m member => below m (List.mem_cons_of_mem _ member)
  | stop _ failed =>
    obtain ⟨rest, rfl⟩ := depth_left under deep
    have here := (below _ List.mem_cons_self).1
    rw [Run.forM_cons_apply, Run.bind_apply, visit_failed linkage settled under here failed]
    exact .stopped under
  | @enter path todo seen between after first second stop m i fresh known waiting search _ ihBelow
      ihRest =>
    obtain ⟨rest, rfl⟩ := depth_left under deep
    obtain ⟨here, led⟩ := below _ List.mem_cons_self
    have deeper : r.size < rest + (m :: path).length := deep_below m deep
    have reached : Followed interpreter r traversal path between (first ++ [(m, m :: path)]) none now
        w (visit interpreter traversal (rest + 1) m ⟨now, w⟩) := by
      refine visit_follows linkage settled under fresh known waiting here led
        (fun _ target depends => ?_) fun now' under' => ?_
      · obtain ⟨j, same, member⟩ := depends
        cases known.symm.trans same
        exact search.covers target member
      · apply (ihBelow under' deeper (targets_below linkage here known)).append
        exact fun now'' w'' under'' => execute_follows linkage known search.covers under''
    have parts : first ++ (m, m :: path) :: second = (first ++ [(m, m :: path)]) ++ second := by simp
    rw [Run.forM_cons_apply, parts]
    exact reached.append fun now' w' under' =>
      ihRest under' deep fun x member => below x (List.mem_cons_of_mem _ member)
  | @cut path todo seen after order e m i fresh known waiting _ ih =>
    obtain ⟨rest, rfl⟩ := depth_left under deep
    obtain ⟨here, led⟩ := below _ List.mem_cons_self
    have deeper : r.size < rest + (m :: path).length := deep_below m deep
    have reached : Followed interpreter r traversal path after order (some e) now w
        (visit interpreter traversal (rest + 1) m ⟨now, w⟩) := by
      refine visit_follows linkage settled under fresh known waiting here led
        (fun never => by cases never) fun now' under' => ?_
      exact (ih under' deeper (targets_below linkage here known)).append_stopped
    rw [Run.forM_cons_apply]
    exact reached.append_stopped

/-- From linked modules the search comes to an end. -/
theorem exists_search (settled : r.Settled) {todo : List ModuleId} (linked : ∀ m ∈ todo, r.Linked m)
    (distinct : seen.Nodup) (registered : ∀ m ∈ seen, m.index < r.size) :
    ∃ order stop after, PostOrder r path todo seen order stop after := by
  have ready : ∀ m, r.Linked m → ∃ i, r.get? m = some i ∧ i.progress ≠ .inProgress := by
    rintro m ⟨i, known, _⟩
    exact ⟨i, known, fun running =>
      settled.idle m (Registry.progressOf?_eq_some_iff.mpr ⟨i, known, running⟩)⟩
  exact PostOrder.exists_of_closed ready (fun m target inside => (linkage.closed m inside).2 target)
    todo linked distinct registered

omit linkage in
theorem evaluate_apply (traversal : Nat) (entry : ModuleId) (machine : Machine κ σ) :
    evaluate interpreter traversal entry machine =
      visit interpreter traversal (machine.registry.size + 1) entry machine := by
  unfold evaluate
  rw [Run.bind_apply, Run.get_apply]

/-- A traversal follows the search from its entry. -/
theorem evaluate_follows {entry : ModuleId} (settled : r.Settled) (linked : r.Linked entry) :
    ∃ order stop after, PostOrder r [] [entry] [] order stop after ∧
      Followed interpreter r traversal [] after order stop r w
        (evaluate interpreter traversal entry ⟨r, w⟩) := by
  have searched : ∃ order stop after, PostOrder r [] [entry] [] order stop after :=
    exists_search linkage settled (by simpa using linked) List.nodup_nil (by simp)
  obtain ⟨order, stop, after, search⟩ := searched
  refine ⟨order, stop, after, search, ?_⟩
  have under : r.Under traversal [] [] r := ⟨.notLinked "", [], .start, .start, by simp⟩
  have followed : Followed interpreter r traversal [] after order stop r w
      ([entry].forM (visit interpreter traversal (r.size + 1)) ⟨r, w⟩) :=
    visits_follow linkage settled search under (Nat.lt_succ_self _) (by simpa using linked)
  have alone : [entry].forM (visit interpreter traversal (r.size + 1)) ⟨r, w⟩ =
      evaluate interpreter traversal entry ⟨r, w⟩ := by
    rw [Run.forM_singleton_apply, evaluate_apply]
  rwa [alone] at followed

end Steps
end Machine
end MixedModules
