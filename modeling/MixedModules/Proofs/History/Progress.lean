import MixedModules.Proofs.Evaluation.Failure
import MixedModules.Proofs.History.Orderly

/-! Between two calls nothing is under way, and what is over is over for good.

Every module runs once at most, in whatever order the embedder builds, links and
evaluates. A module that was completed or has failed answers every later evaluation
from its record. -/
namespace MixedModules

variable {κ σ ℓ : Type}

namespace Registry

/-- Nothing is under way. -/
structure AtRest (r : Registry κ) : Prop where
  /-- No module is being evaluated. -/
  idle : ∀ m i, r.get? m = some i → i.progress ≠ .inProgress
  /-- No claim is held. -/
  unheld : ∀ c component, r.component? c = some component →
    ∀ traversal, component.claim ≠ .held traversal
  /-- No member of a component that may be claimed was begun. -/
  free : ∀ c component, r.component? c = some component → component.claim = .free →
    ∀ m ∈ component.members, ∃ i, r.get? m = some i ∧ i.progress = .notStarted
  /-- All members of a component that was claimed are done with, and those that failed
  have failed alike. -/
  released : ∀ c component, r.component? c = some component → component.claim = .released →
    ∃ e, ∀ m ∈ component.members, ∃ i, r.get? m = some i ∧
      (i.progress = .completed ∨ i.progress = .errored e)
  /-- What a completed module depends on outside its component is completed. -/
  across : ∀ m i target, r.get? m = some i → i.progress = .completed → target ∈ i.targets →
    ∃ j, r.get? target = some j ∧ (j.component ≠ i.component → j.progress = .completed)
  /-- Where no member of a component has failed, all that its completed members depend
  on is completed. -/
  within : ∀ c component, r.component? c = some component →
    (∀ m ∈ component.members, ∀ i, r.get? m = some i → ∀ e, i.progress ≠ .errored e) →
    ∀ m ∈ component.members, ∀ i target, r.get? m = some i → i.progress = .completed →
      target ∈ i.targets → ∃ j, r.get? target = some j ∧ j.progress = .completed
  /-- No module was entered twice. -/
  once : (r.entered.events.map (·.module)).Nodup

/-- A member of a component that is done with is completed, or it has failed for the one
reason that the component has. -/
theorem Settled.spent {r : Registry κ} (settled : r.Settled) {c : ComponentId}
    {component : Component} (known : r.component? c = some component)
    (released : component.claim = .released) :
    ∃ e, ∀ m ∈ component.members,
      r.progressOf? m = some .completed ∨ r.progressOf? m = some (.errored e) := by
  rcases settled.claims c component known with ⟨free, _⟩ | ⟨_, e, spent⟩
  · rw [free] at released
    cases released
  · exact ⟨e, spent⟩

/-- What a completed module depends on is known. It is completed, or in one component
with the module. -/
private theorem Settled.below {r : Registry κ} {m target : ModuleId} {i : Instance κ}
    (settled : r.Settled) (linkage : r.Linkage) (known : r.get? m = some i)
    (completed : i.progress = .completed) (member : target ∈ i.targets) :
    ∃ j, r.get? target = some j ∧
      (j.progress = .completed ∨ r.componentOf? target = r.componentOf? m) := by
  have held := progressOf?_eq_some_iff.mpr ⟨i, known, completed⟩
  have depends : r.DependsOn m target := ⟨i, known, member⟩
  rcases settled.follows m target held depends with done_ | together
  · obtain ⟨j, known', done_⟩ := progressOf?_eq_some_iff.mp done_
    exact ⟨j, known', .inl done_⟩
  · have linked := settled.linked held (by simp)
    obtain ⟨j, known', _⟩ := (linkage.closed m linked).2 target depends
    exact ⟨j, known', .inr together⟩

theorem atRest_of_settled {r : Registry κ} (linkage : r.Linkage) (settled : r.Settled)
    (once : r.EnteredOnce) : r.AtRest where
  idle m i known running :=
    settled.idle m (progressOf?_eq_some_iff.mpr ⟨i, known, running⟩)
  unheld c component known traversal held := by
    rcases settled.claims c component known with ⟨free, _⟩ | ⟨released, _⟩
    · rw [free] at held
      cases held
    · rw [released] at held
      cases held
  free c component known claim m member := by
    rcases settled.claims c component known with ⟨_, waiting⟩ | ⟨released, _⟩
    · exact progressOf?_eq_some_iff.mp (waiting m member)
    · rw [claim] at released
      cases released
  released c component known claim := by
    obtain ⟨e, spent⟩ := settled.spent known claim
    refine ⟨e, fun m member => ?_⟩
    rcases spent m member with completed | failed
    · obtain ⟨i, there, completed⟩ := progressOf?_eq_some_iff.mp completed
      exact ⟨i, there, .inl completed⟩
    · obtain ⟨i, there, failed⟩ := progressOf?_eq_some_iff.mp failed
      exact ⟨i, there, .inr failed⟩
  across m i target known completed member := by
    obtain ⟨j, known', state⟩ := settled.below linkage known completed member
    refine ⟨j, known', fun apart => state.resolve_right fun together => apart ?_⟩
    simpa [componentOf?, known, known'] using together
  within c component held sound m member i target known completed depends := by
    obtain ⟨j, known', state⟩ := settled.below linkage known completed depends
    refine ⟨j, known', ?_⟩
    rcases state with done_ | together
    · exact done_
    -- The target is a member too, and no member that is done with has failed.
    have place := (linkage.grouped.members m c).mpr ⟨component, held, member⟩
    obtain ⟨component', held', inside⟩ :=
      (linkage.grouped.members target c).mp (together.trans place)
    cases held.symm.trans held'
    have finished : r.progressOf? m = some .completed :=
      progressOf?_eq_some_iff.mpr ⟨i, known, completed⟩
    have begun := settled.finished held member (by simp [finished])
    obtain ⟨e, spent⟩ := settled.spent held begun.1
    rcases spent target inside with finished | failed
    · obtain ⟨j', same, finished⟩ := progressOf?_eq_some_iff.mp finished
      cases known'.symm.trans same
      exact finished
    · obtain ⟨j', same, failed⟩ := progressOf?_eq_some_iff.mp failed
      exact absurd failed (sound target inside j' same e)
  once := once.1

end Registry

namespace Machine

/-- A module that is done with answers from its record: nothing runs and nothing changes. -/
theorem evaluate_begun {r : Registry κ} {interpreter : Interpreter κ σ} {traversal : Nat}
    {w : World κ σ} {m : ModuleId} {i : Instance κ} (linkage : r.Linkage) (settled : r.Settled)
    (linked : r.Linked m) (known : r.get? m = some i) (begun : i.progress ≠ .notStarted) :
    evaluate interpreter traversal m ⟨r, w⟩ =
      match i.progress with
      | .errored e => (some (.error e), ⟨r, w⟩)
      | _ => (some (.ok ()), ⟨r, w⟩) := by
  unfold evaluate
  rw [Run.bind_apply, Run.get_apply]
  exact visit_begun (e := .notLinked "") linkage settled .start linked known begun

end Machine

namespace Site.Orderly

variable {setup : Setup κ σ ℓ} {site : Site κ σ ℓ}

/-- No call takes back what an evaluation has done. -/
theorem lasting_make (orderly : Orderly setup site) (call : Call κ σ ℓ) :
    site.registry.Lasting (site.make setup call).registry := by
  cases call with
  | build entry =>
    exact (build_yields setup site entry orderly.stocked).1.lasting
  | link n =>
    rcases link_cases setup site n with same | ⟨g, links, member, ran, made⟩
    · rw [same]
      exact .refl _
    · rw [made]
      have joined := (Links.joined_of_link orderly.linkage (orderly.graphs g member) ran).1
      exact Registry.Joined.lasting joined fun m member => (Links.mem_pending.mp member).2
  | evaluate n =>
    rcases evaluate_cases setup site n with same | ⟨l, outcome, machine, member, ran, made⟩
    · rw [same]
      exact .refl _
    · rw [made]
      cases outcome with
      | none => exact .refl _
      | some result => exact ((orderly.evaluated member ran).advanced result rfl).lasting
  | act program => exact .refl _
  | restock source => exact .refl _

theorem lasting_run (orderly : Orderly setup site) (calls : List (Call κ σ ℓ)) :
    site.registry.Lasting (site.run setup calls).registry := by
  induction calls generalizing site with
  | nil => exact .refl _
  | cons call rest ih => exact (orderly.lasting_make call).trans (ih (orderly.make call))

/-- A failure that was raised is a refusal only if code of the embedder ended with it. -/
private theorem ends_of_raised {r : Registry κ} {interpreter : Interpreter κ σ} {text : String}
    (raised : Machine.Raised interpreter r (.notLinked text)) :
    interpreter.Ends (.notLinked text) := by
  obtain ⟨_, i, home, w, _, _, present, fails⟩ := raised
  exact (World.homely_runModule i.record).spared w present text fails

end Site.Orderly

/-- What is over is over for good, and what was linked is never refused. -/
structure Site.Final (setup : Setup κ σ ℓ) (site : Site κ σ ℓ) : Prop where
  /-- No later call changes what was completed or has failed. -/
  kept : ∀ calls m progress, site.registry.progressOf? m = some progress →
    progress ≠ .notStarted → (site.run setup calls).registry.progressOf? m = some progress
  /-- Evaluating a completed module succeeds, and nothing runs or changes. -/
  completed : ∀ l ∈ site.linked, site.registry.progressOf? l.graph.entry = some .completed →
    site.engine.evaluate setup.interpreter l site.world =
      (some (.ok (site.engine.namespaceOf site.world.store l.graph.entry)),
        { site.engine with traversals := site.engine.traversals + 1 }, site.world)
  /-- Evaluating a module that has failed fails alike, and nothing runs or changes. -/
  failed : ∀ l ∈ site.linked, ∀ e, site.registry.progressOf? l.graph.entry = some (.errored e) →
    site.engine.evaluate setup.interpreter l site.world =
      (some (.error e), { site.engine with traversals := site.engine.traversals + 1 }, site.world)
  /-- Only code of the embedder can refuse a module as one that was not linked. -/
  unrefused : ∀ l ∈ site.linked, ∀ text,
    (site.engine.evaluate setup.interpreter l site.world).1 = some (.error (.notLinked text)) →
      setup.interpreter.Ends (.notLinked text)

theorem Site.Orderly.final {setup : Setup κ σ ℓ} {site : Site κ σ ℓ} (orderly : site.Orderly setup) :
    site.Final setup := by
  have answers : ∀ l ∈ site.linked, ∀ i, site.engine.registry.get? l.graph.entry = some i →
      i.progress ≠ .notStarted →
      Machine.evaluate setup.interpreter (site.engine.traversals + 1) l.graph.entry
          ⟨site.engine.registry, site.world⟩ =
        match i.progress with
        | .errored e => (some (.error e), ⟨site.engine.registry, site.world⟩)
        | _ => (some (.ok ()), ⟨site.engine.registry, site.world⟩) :=
    fun l member i known begun => Machine.evaluate_begun orderly.linkage orderly.settled
      (orderly.linked l member) known begun
  constructor
  · intro calls m progress held spent
    exact (orderly.lasting_run calls).progress m progress held spent
  · intro l member held
    obtain ⟨i, known, completed⟩ := Registry.progressOf?_eq_some_iff.mp held
    unfold Engine.evaluate
    simp only [answers l member i known (by simp [completed]), completed]
    rfl
  · intro l member e held
    obtain ⟨i, known, failed⟩ := Registry.progressOf?_eq_some_iff.mp held
    unfold Engine.evaluate
    simp only [answers l member i known (by simp [failed]), failed]
    rfl
  · intro l member text refused
    unfold Engine.evaluate at refused
    rcases ran : Machine.evaluate setup.interpreter (site.engine.traversals + 1) l.graph.entry
      ⟨site.engine.registry, site.world⟩ with ⟨outcome, machine⟩
    simp only [ran] at refused
    obtain ⟨result, rfl, same⟩ := Option.map_eq_some_iff.mp refused
    cases result with
    | ok _ => cases same
    | error e =>
      cases same
      exact ends_of_raised ((orderly.evaluated member ran).raised _ rfl)

/-- Between any two calls of any history nothing is under way, no module has run twice,
and what is over stays as it is. -/
theorem Site.run_at_rest (setup : Setup κ σ ℓ) (memo : σ) (source : ℓ) (calls : List (Call κ σ ℓ)) :
    ((Site.start memo source).run setup calls).registry.AtRest ∧
      ((Site.start memo source).run setup calls).Final setup := by
  have orderly := Site.Orderly.of_run setup memo source calls
  exact ⟨Registry.atRest_of_settled orderly.linkage orderly.settled orderly.entered, orderly.final⟩

/-- In the small history a second evaluation of the reader finds it completed, and leaves
all as it is. -/
theorem Site.reader_at_rest : ∃ site l, site = (Site.start () ()).run Sample.setup
    (Sample.preparation ++ [.evaluate 0]) ∧ l ∈ site.linked ∧
      site.engine.evaluate Sample.setup.interpreter l site.world =
        (some (.ok (site.engine.namespaceOf site.world.store ⟨0⟩)),
          { site.engine with traversals := 2 }, site.world) := by
  obtain ⟨_, final⟩ := Site.run_at_rest Sample.setup () () (Sample.preparation ++ [.evaluate 0])
  generalize ended : (Site.start () ()).run Sample.setup (Sample.preparation ++ [.evaluate 0]) =
    site at final
  have state : ∃ l ∈ site.linked, l.graph.entry = ⟨0⟩ ∧
      site.registry.progressOf? l.graph.entry = some .completed ∧ site.engine.traversals = 1 := by
    rw [← ended]
    decide +kernel
  obtain ⟨l, member, entry, completed, traversals⟩ := state
  have answers := final.completed l member completed
  rw [entry, traversals] at answers
  exact ⟨site, l, rfl, member, answers⟩

end MixedModules
