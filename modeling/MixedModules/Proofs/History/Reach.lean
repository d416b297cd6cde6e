import MixedModules.Proofs.Evaluation.Descent
import MixedModules.Proofs.History.Orderly

/-! How far a failure of an evaluation reaches.

Whatever the traversal had not finished when the first failure arose lies on one way
down from the entry. The components of this way are given up, save for the members that
were completed. Nothing else fails, and what was not reached can be evaluated later. -/
namespace MixedModules

variable {κ σ ℓ : Type}

namespace Registry

/-- A member of the component of a module is in progress. -/
def Interrupted (r : Registry κ) (m : ModuleId) : Prop :=
  ∃ c x, r.componentOf? m = some c ∧ r.componentOf? x = some c ∧
    r.progressOf? x = some .inProgress

/-- What an evaluation changes that fails with `e`. The first failure arose at `moment`,
and `path` was the way down to it, the latest module first. -/
structure Reach (before moment after : Registry κ) (entry : ModuleId) (path : List ModuleId)
    (e : EvalError) : Prop where
  /-- The way down leads from the entry, along dependencies, to the failure: the latest
  module on it was entered last, or it depends on one that had failed before. -/
  running : ∀ m, moment.progressOf? m = some .inProgress ↔ m ∈ path
  way : path.IsChain fun later earlier => before.DependsOn earlier later
  start : path.getLast? = some entry ∨ path = [] ∧ before.progressOf? entry = some (.errored e)
  cause : (∃ x older, moment.entered.events = x :: older ∧ path.head? = some x.module) ∨
    ∃ m, before.progressOf? m = some (.errored e) ∧ ∀ top ∈ path.head?, before.DependsOn top m
  /-- Exactly the members of the interrupted components that were not completed fail,
  and they fail with `e`. -/
  failed : ∀ m e', (after.progressOf? m = some (.errored e') ∧
      ∀ old, before.progressOf? m ≠ some (.errored old)) ↔
    e' = e ∧ moment.Interrupted m ∧ moment.progressOf? m ≠ some .completed
  /-- What is completed at the moment of the failure, and nothing else, is completed. -/
  completed : ∀ m, after.progressOf? m = some .completed ↔ moment.progressOf? m = some .completed
  /-- What an earlier evaluation completed, or recorded as failed, stays so throughout. -/
  kept : ∀ m, before.progressOf? m ≠ some .notStarted →
    moment.progressOf? m = before.progressOf? m ∧ after.progressOf? m = before.progressOf? m
  /-- What was entered by the moment of the failure is completed or on the way down, and
  nothing is entered later. -/
  entered : after.entered = moment.entered ∧ ∃ news,
    moment.entered.events = news ++ before.entered.events ∧ ∀ x ∈ news,
      moment.progressOf? x.module = some .completed ∨ moment.progressOf? x.module = some .inProgress
  /-- What was not begun, in components that were not interrupted, may still be evaluated. -/
  waiting : ∀ m, moment.progressOf? m = some .notStarted → ¬ moment.Interrupted m →
    after.progressOf? m = some .notStarted ∧ ∀ c, after.componentOf? m = some c →
      ∃ component, after.component? c = some component ∧ component.claim = .free
  ends : after.progressOf? entry = some (.errored e)

namespace At

variable {r now : Registry κ} {traversal : Nat} {e : EvalError} {stage : Stage} {m : ModuleId}

/-- Interrupted are the components of the modules on the way down. -/
theorem interrupted_iff (here : r.At traversal e stage now) (sound : stage.Sound r)
    (linkage : r.Linkage) (settled : r.Settled) :
    now.Interrupted m ↔ ∃ x ∈ stage.stack, r.componentOf? m = r.componentOf? x := by
  constructor
  · rintro ⟨c, x, place, there, running⟩
    rw [here.sameModules.componentOf?] at place there
    exact ⟨x, (here.inProgress_iff sound settled).mp running, place.trans there.symm⟩
  · rintro ⟨x, held, shares⟩
    obtain ⟨c, there⟩ := (linkage.placed x).mp (sound.fresh x (.inl held)).1
    refine ⟨c, x, ?_, ?_, (here.inProgress_iff sound settled).mpr held⟩
    · rw [here.sameModules.componentOf?, shares, there]
    · rw [here.sameModules.componentOf?, there]

/-- Where nothing is left on the stack, the component of a module that waits is free. -/
theorem claim_free {done doomed : List ModuleId} (here : r.At traversal e ⟨[], done, doomed⟩ now)
    (sound : Stage.Sound r ⟨[], done, doomed⟩) (linkage : r.Linkage) (settled : r.Settled)
    (waits : now.progressOf? m = some .notStarted) {c : ComponentId}
    (place : now.componentOf? m = some c) :
    ∃ component, now.component? c = some component ∧ component.claim = .free := by
  obtain ⟨waited, untaken, undone, _⟩ := (here.notStarted_iff sound).mp waits
  rw [here.sameModules.componentOf?] at place
  obtain ⟨component, known, member⟩ := (linkage.grouped.members m c).mp place
  have untouched : ¬ ∃ x ∈ component.members, x ∈ done ∨ x ∈ doomed := by
    rintro ⟨x, inside, spent⟩
    have shares : r.componentOf? m = r.componentOf? x :=
      place.trans ((member_iff linkage known).mp inside).symm
    rcases sound.balanced x spent m shares with finished | taken | ⟨_, none, _⟩
    · exact undone finished
    · exact untaken taken
    · cases none
  refine ⟨_, (here.components c).trans (congrArg _ known), ?_⟩
  simpa [Stage.claim, untouched] using (settled.untouched known member waited).1

end At

/-- A failure that was carried up all the way reaches no further than it must. -/
theorem Climbs.reach {r moment after : Registry κ} {traversal : Nat} {e : EvalError}
    {entry : ModuleId} {path : List ModuleId} (linkage : r.Linkage) (settled : r.Settled)
    (climbs : r.Climbs traversal e entry path [] moment after) :
    r.Reach moment after entry path e := by
  obtain ⟨⟨done, doomed, ⟨down, soundDown, up, sound, entered, given, alike⟩, news, events, told⟩, way,
    start, cause⟩ := climbs
  rw [List.append_nil] at down soundDown
  simp only [List.append_nil] at told
  have running : ∀ m, moment.progressOf? m = some .inProgress ↔ m ∈ path := fun _ =>
    down.inProgress_iff soundDown settled
  have completed : ∀ m, moment.progressOf? m = some .completed ↔
      m ∈ done ∨ r.progressOf? m = some .completed := fun _ => down.completed_iff soundDown
  have interrupted : ∀ m, moment.Interrupted m ↔
      ∃ x ∈ path, r.componentOf? m = r.componentOf? x := fun _ =>
    down.interrupted_iff soundDown linkage settled
  have taken : ∀ m ∈ doomed, moment.Interrupted m := fun m failed =>
    (interrupted m).mpr (alike m failed)
  -- A component of the way down is taken along as a whole, save for what was completed.
  have whole : ∀ m, moment.Interrupted m → m ∈ done ∨ m ∈ doomed := by
    intro m inside
    obtain ⟨x, held, shares⟩ := (interrupted m).mp inside
    rcases sound.balanced x (.inr (given x held)) m shares with finished | failed | ⟨_, none, _⟩
    · exact .inl finished
    · exact .inr failed
    · cases none
  have failed : ∀ m e', (after.progressOf? m = some (.errored e') ∧
      ∀ old, r.progressOf? m ≠ some (.errored old)) ↔
      e' = e ∧ moment.Interrupted m ∧ moment.progressOf? m ≠ some .completed := by
    intro m e'
    rw [up.errored_iff sound, Ne, completed m]
    refine and_congr_right fun _ => ⟨fun ⟨given, undone, _⟩ => ⟨taken m given, ?_⟩,
      fun ⟨inside, uncompleted⟩ => ?_⟩
    · have waited := (sound.fresh m (.inr (.inr given))).2
      simp [undone, waited]
    · have undone : m ∉ done := fun finished => uncompleted (.inl finished)
      exact ⟨(whole m inside).resolve_left undone, undone, List.not_mem_nil⟩
  have kept : ∀ m, r.progressOf? m ≠ some .notStarted →
      moment.progressOf? m = r.progressOf? m ∧ after.progressOf? m = r.progressOf? m :=
    fun m spent => ⟨down.kept soundDown spent, up.kept sound spent⟩
  have waiting : ∀ m, moment.progressOf? m = some .notStarted → ¬ moment.Interrupted m →
      after.progressOf? m = some .notStarted := by
    intro m idle outside
    obtain ⟨waited, _, undone, _⟩ := (down.notStarted_iff soundDown).mp idle
    exact (up.notStarted_iff sound).mpr
      ⟨waited, fun failed => outside (taken m failed), undone, List.not_mem_nil⟩
  refine ⟨running, way, start, cause, failed, fun m => ?_, kept,
    ⟨entered, news, events, fun x late => ?_⟩, fun m idle outside =>
      ⟨waiting m idle outside, fun c place => ?_⟩, ?_⟩
  · rw [up.completed_iff sound, completed m]
  · exact (told x late).symm.imp (fun finished => (completed _).mpr (.inl finished)) (running _).mpr
  · exact up.claim_free sound linkage settled (waiting m idle outside) place
  · rcases start with last | ⟨_, recorded⟩
    · have held := List.mem_of_getLast? last
      have unfinished : moment.progressOf? entry ≠ some .completed := by
        simp [(running entry).mpr held]
      exact ((failed entry e).mpr ⟨rfl, (interrupted entry).mpr ⟨entry, held, rfl⟩, unfinished⟩).1
    · exact (kept entry (by simp [recorded])).2.trans recorded

end Registry

/-! ## A small history with a failure -/

namespace Sample

/-- A module without a body, which asks for others. -/
def asking (requested : List String) (code : Option Unit) : Record Unit :=
  { Record.ofBody (.script code) with requested }

/-- Main and aid depend on each other, and main also on a module that comes late. The
code of aid fails. -/
def failing : Setup Unit Unit Unit where
  resolver specifier _ := .ok specifier
  loader identity source := (.record (if identity = "main" then asking ["aid", "late"] none
    else if identity = "aid" then asking ["main"] (some ()) else asking [] none), source)
  limits := ⟨1, 10⟩
  interpreter := ⟨⟨fun _ _ => .done (.error (.thrown "no")), fun _ _ _ => .done (.ok .undefined),
    fun _ _ _ => .done (.ok [])⟩, 1⟩

end Sample

namespace Site

/-- An evaluation that fails has a first failure, and its error is that of the call. It
reaches the components on the way from the entry to this failure, and nothing else. -/
theorem evaluate_reach (setup : Setup κ σ ℓ) (memo : σ) (source : ℓ) (calls : List (Call κ σ ℓ))
    {site : Site κ σ ℓ} (history : site = (Site.start memo source).run setup calls)
    {l : LinkedGraph} (member : l ∈ site.linked) {e : EvalError} {engine : Engine κ}
    {world : World κ σ}
    (fails : site.engine.evaluate setup.interpreter l site.world = (some (.error e), engine, world)) :
    (∃ path moment, Machine.FailsAt setup.interpreter (site.engine.traversals + 1)
        (site.registry.size + 1) l.graph.entry ⟨site.registry, site.world⟩ path moment e) ∧
      ∀ path moment e', Machine.FailsAt setup.interpreter (site.engine.traversals + 1)
          (site.registry.size + 1) l.graph.entry ⟨site.registry, site.world⟩ path moment e' →
        e' = e ∧
          site.registry.Reach moment.registry engine.registry l.graph.entry path e := by
  have orderly : Orderly setup site := history ▸ Orderly.of_run setup memo source calls
  obtain ⟨linkage, settled⟩ := And.intro orderly.linkage orderly.settled
  have linked := orderly.linked l member
  have descends := Registry.Descends.start site.registry (site.engine.traversals + 1)
  have visited : ∃ machine, Machine.visit setup.interpreter (site.engine.traversals + 1)
      (site.registry.size + 1) l.graph.entry ⟨site.registry, site.world⟩ =
        (some (.error e), machine) ∧ engine.registry = machine.registry := by
    rcases ran : Machine.evaluate setup.interpreter (site.engine.traversals + 1) l.graph.entry
      ⟨site.engine.registry, site.world⟩ with ⟨outcome, machine⟩
    unfold Engine.evaluate at fails
    simp only [ran, Prod.mk.injEq] at fails
    obtain ⟨outcomes, rfl, rfl⟩ := fails
    obtain ⟨result, rfl, same⟩ := Option.map_eq_some_iff.mp outcomes
    cases result with
    | ok _ => cases same
    | error _ =>
      cases same
      rw [Machine.evaluate_apply] at ran
      exact ⟨machine, ran, rfl⟩
  obtain ⟨machine, visited, same⟩ := visited
  refine ⟨Machine.exists_failsAt linkage settled descends linked (by simp) (by simp) visited,
    fun path moment e' failsAt => ?_⟩
  obtain ⟨later, again, climbs⟩ := failsAt.climbs linkage settled descends linked (by simp) (by simp)
  cases visited.symm.trans again
  rw [same]
  exact ⟨rfl, climbs.reach linkage settled⟩

/-- In the small history main fails with aid. -/
theorem failing_reach : ∃ site l engine world path moment,
    site = (Site.start () ()).run Sample.failing [.build "main", .link 0] ∧ l ∈ site.linked ∧
    site.engine.evaluate Sample.failing.interpreter l site.world =
      (some (.error (.thrown "no")), engine, world) ∧
    site.registry.Reach moment engine.registry l.graph.entry path (.thrown "no") ∧
    engine.registry.progressOf? l.graph.entry = some (.errored (.thrown "no")) := by
  generalize ended : (Site.start () ()).run Sample.failing [.build "main", .link 0] = site
  have fails : ∃ l ∈ site.linked, (site.engine.evaluate Sample.failing.interpreter l
      site.world).1.map (fun result => result.map fun _ => ()) = some (.error (.thrown "no")) := by
    rw [← ended]
    decide +kernel
  obtain ⟨l, member, fails⟩ := fails
  rcases ran : site.engine.evaluate Sample.failing.interpreter l site.world with
    ⟨outcome, engine, world⟩
  rw [ran] at fails
  rcases outcome with _ | e | _
  · cases fails
  · cases fails
    obtain ⟨⟨path, moment, failsAt⟩, reach⟩ := evaluate_reach Sample.failing () () _ ended.symm member ran
    obtain ⟨_, reach⟩ := reach path moment _ failsAt
    exact ⟨site, l, engine, world, path, moment.registry, rfl, member, ran, reach, reach.ends⟩
  · cases fails

end Site
end MixedModules
