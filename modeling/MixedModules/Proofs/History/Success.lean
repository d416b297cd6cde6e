import MixedModules.Proofs.History.Progress
import MixedModules.Proofs.History.Reach

/-! What the success of an evaluation tells of the modules below its entry.

A traversal does not look below a module that an earlier one completed. Where a component
failed in part, a completed member may hide a failed one, so success tells nothing of what
can be reached only through such a member. Everything else is completed. -/
namespace MixedModules
open Relation

variable {κ σ ℓ : Type}

namespace Registry

/-- A completed module depends on a member of its own component that has failed. -/
structure Hides (r : Registry κ) (m failed : ModuleId) : Prop where
  completed : r.progressOf? m = some .completed
  depends : r.DependsOn m failed
  together : r.componentOf? failed = r.componentOf? m
  failure : ∃ e, r.progressOf? failed = some (.errored e)

/-- A dependency that a traversal follows: it does not look below what was completed before. -/
def Follows (r : Registry κ) (m target : ModuleId) : Prop :=
  r.progressOf? m ≠ some .completed ∧ r.DependsOn m target

/-- What an evaluation of `entry` that succeeds leaves behind. -/
structure Succeeds (before after : Registry κ) (entry : ModuleId) : Prop where
  /-- On any way down from the entry all modules are completed, or all up to one that was
  completed before and hides the next. -/
  ways : ∀ way, (entry :: way).IsChain before.DependsOn →
    (∀ m ∈ entry :: way, after.progressOf? m = some .completed) ∨
      ∃ front m failed rest, entry :: way = front ++ m :: failed :: rest ∧
        (∀ x ∈ front ++ [m], after.progressOf? x = some .completed) ∧ before.Hides m failed
  /-- Everything that a traversal can reach is completed. -/
  followed : ∀ m, ReflTransGen before.Follows entry m → after.progressOf? m = some .completed
  /-- What is below the entry and not completed is below a failure that was hidden. -/
  behind : ∀ m, ReflTransGen before.DependsOn entry m → after.progressOf? m ≠ some .completed →
    ∃ x failed, ReflTransGen before.DependsOn entry x ∧ before.Hides x failed ∧
      ReflTransGen before.DependsOn failed m
  /-- What had failed stays so. -/
  failed : ∀ m e, before.progressOf? m = some (.errored e) →
    after.progressOf? m = some (.errored e)

section Advanced

variable {before after : Registry κ} {entry m target : ModuleId}
  (advanced : before.Advanced (.ok ()) after) (linkage : before.Linkage) (settled : before.Settled)

include advanced linkage settled

/-- What a completed module depends on is completed after a success, unless it had failed
before and the module hides it. -/
theorem Advanced.completed_or_hides (completed : after.progressOf? m = some .completed)
    (depends : before.DependsOn m target) :
    after.progressOf? target = some .completed ∨ before.Hides m target := by
  rcases advanced.settled.follows m target completed (advanced.same.dependsOn_iff.mpr depends) with
    done_ | together
  · exact .inl done_
  rw [advanced.same.componentOf?, advanced.same.componentOf?] at together
  have members := (advanced.same.linkage linkage).grouped.members
  obtain ⟨c, place⟩ := (linkage.placed m).mp
    (advanced.same.linked_iff.mp (advanced.settled.linked completed (by simp)))
  have here : after.componentOf? m = some c := advanced.same.componentOf?.trans place
  have there : after.componentOf? target = some c :=
    advanced.same.componentOf?.trans (together.trans place)
  obtain ⟨component, held, member⟩ := (members m c).mp here
  obtain ⟨component', held', inside⟩ := (members target c).mp there
  cases held.symm.trans held'
  have begun := advanced.settled.finished held member (by simp [completed])
  obtain ⟨e, spent⟩ := advanced.settled.spent held begun.1
  refine (spent target inside).imp_right fun failed => ?_
  -- Nothing fails in a success, so the component was begun by an earlier evaluation.
  have failedBefore : before.progressOf? target = some (.errored e) :=
    (advanced.failed target e failed).resolve_right (by simp)
  obtain ⟨old, heldBefore, insideBefore⟩ :=
    (linkage.grouped.members target c).mp (together.trans place)
  obtain ⟨old', heldBefore', memberBefore⟩ := (linkage.grouped.members m c).mp place
  cases heldBefore.symm.trans heldBefore'
  have begunBefore := settled.finished heldBefore insideBefore (by simp [failedBefore])
  have kept := advanced.kept m (begunBefore.2 m memberBefore)
  exact ⟨kept.symm.trans completed, depends, together, e, failedBefore⟩

/-- Each step down from a completed module leads to a completed one, or to a hidden failure. -/
theorem Advanced.succeeds (completed : after.progressOf? entry = some .completed) :
    before.Succeeds after entry := by
  constructor
  · intro way chain
    induction way generalizing entry with
    | nil => exact .inl (by simpa using completed)
    | cons next rest ih =>
      obtain ⟨depends, chain⟩ := List.isChain_cons_cons.mp chain
      rcases advanced.completed_or_hides linkage settled completed depends with done_ | hides
      · rcases ih done_ chain with all | ⟨front, m, failed, later, parts, finished, hides⟩
        · exact .inl (List.forall_mem_cons.mpr ⟨completed, all⟩)
        · exact .inr ⟨entry :: front, m, failed, later, congrArg (entry :: ·) parts,
            List.forall_mem_cons.mpr ⟨completed, finished⟩, hides⟩
      · exact .inr ⟨[], entry, next, rest, rfl, by simpa using completed, hides⟩
  · intro m way
    induction way with
    | refl => exact completed
    | tail _ edge ih =>
      exact (advanced.completed_or_hides linkage settled ih edge.2).resolve_right
        fun hides => edge.1 hides.completed
  · intro m way
    induction way with
    | refl => exact fun uncompleted => absurd completed uncompleted
    | @tail x target way edge ih =>
      intro uncompleted
      by_cases above : after.progressOf? x = some .completed
      · have hides := (advanced.completed_or_hides linkage settled above edge).resolve_left
          uncompleted
        exact ⟨x, target, way, hides, .refl⟩
      · obtain ⟨y, failed, reaches, hides, below⟩ := ih above
        exact ⟨y, failed, reaches, hides, below.tail edge⟩
  · intro m e failed
    rw [advanced.kept m (by simp [failed]), failed]

end Advanced

end Registry

namespace Site

/-- An evaluation that succeeds completes its entry. -/
private theorem Orderly.entry_completed {setup : Setup κ σ ℓ} {site : Site κ σ ℓ}
    (orderly : Orderly setup site) {l : LinkedGraph} (member : l ∈ site.linked) {traversal : Nat}
    {machine : Machine κ σ}
    (ran : Machine.evaluate setup.interpreter traversal l.graph.entry ⟨site.registry, site.world⟩ =
      (some (.ok ()), machine)) :
    machine.registry.progressOf? l.graph.entry = some .completed := by
  obtain ⟨order, stop, after, search, followed⟩ := orderly.follows member traversal
  rw [ran] at followed
  cases followed.stop_eq_none rfl
  obtain ⟨e, done, here, sound, seen⟩ := followed.ends
  refine (here.completed_iff sound).mpr ?_
  exact (search.covers l.graph.entry List.mem_cons_self).imp_left fun reached =>
    ((seen _).mp reached).resolve_left List.not_mem_nil

/-- In every history an evaluation that succeeds has completed all that is below its entry,
save for what can be reached only through a member of a component that failed in part. -/
theorem evaluate_succeeds (setup : Setup κ σ ℓ) (memo : σ) (source : ℓ) (calls : List (Call κ σ ℓ))
    {site : Site κ σ ℓ} (history : site = (Site.start memo source).run setup calls)
    {l : LinkedGraph} (member : l ∈ site.linked) {ns : Namespace} {engine : Engine κ}
    {world : World κ σ}
    (succeeds : site.engine.evaluate setup.interpreter l site.world = (some (.ok ns), engine, world)) :
    site.registry.Succeeds engine.registry l.graph.entry := by
  have orderly : Orderly setup site := history ▸ Orderly.of_run setup memo source calls
  rcases ran : Machine.evaluate setup.interpreter (site.engine.traversals + 1) l.graph.entry
    ⟨site.engine.registry, site.world⟩ with ⟨outcome, machine⟩
  unfold Engine.evaluate at succeeds
  simp only [ran, Prod.mk.injEq] at succeeds
  obtain ⟨outcomes, rfl, rfl⟩ := succeeds
  obtain ⟨result, rfl, same⟩ := Option.map_eq_some_iff.mp outcomes
  cases result with
  | error _ => cases same
  | ok _ =>
    have advanced := (orderly.evaluated member ran).advanced _ rfl
    exact advanced.succeeds orderly.linkage orderly.settled (orderly.entry_completed member ran)

/-- In the small history the evaluation of the reader completes the counter. -/
theorem prepared_succeeds : ∃ l ∈ Sample.prepared.linked, ∃ ns engine world,
    Sample.prepared.engine.evaluate Sample.setup.interpreter l Sample.prepared.world =
      (some (.ok ns), engine, world) ∧
    Sample.prepared.registry.Succeeds engine.registry l.graph.entry ∧
    Sample.prepared.registry.progressOf? ⟨1⟩ = some .notStarted ∧
    engine.registry.progressOf? ⟨1⟩ = some .completed := by
  have state : ∃ l ∈ Sample.prepared.linked, l.graph.entry = ⟨0⟩ ∧
      (Sample.prepared.engine.evaluate Sample.setup.interpreter l
        Sample.prepared.world).1.map Except.isOk = some true ∧
      (Sample.prepared.registry.get? ⟨0⟩).map (fun i => (i.targets, i.progress)) =
        some ([⟨1⟩], .notStarted) ∧
      Sample.prepared.registry.progressOf? ⟨1⟩ = some .notStarted := by
    decide +kernel
  obtain ⟨l, member, entry, success, reader, waiting⟩ := state
  rcases ran : Sample.prepared.engine.evaluate Sample.setup.interpreter l Sample.prepared.world with
    ⟨outcome, engine, world⟩
  rw [ran] at success
  obtain ⟨i, known, parts⟩ := Option.map_eq_some_iff.mp reader
  obtain ⟨targets, waits⟩ := Prod.mk.inj parts
  rcases outcome with _ | e | ns
  · cases success
  · cases success
  · have succeeds := evaluate_succeeds Sample.setup () () Sample.preparation rfl member ran
    have follows : Sample.prepared.registry.Follows l.graph.entry ⟨1⟩ := by
      rw [entry]
      exact ⟨by simp [Registry.progressOf?, known, waits], i, known, by simp [targets]⟩
    exact ⟨l, member, ns, engine, world, ran, succeeds, waiting, succeeds.followed _ (.single follows)⟩

end Site

namespace Sample

/-- Aid is evaluated first and fails, after main was completed. Then main is linked. -/
def partly : List (Call Unit Unit Unit) :=
  [.build "aid", .link 0, .evaluate 0, .build "main", .link 0]

end Sample

namespace Site

/-- Success does not mean that everything below the entry ran: in the small history main is
completed and hides aid, which has failed. -/
theorem not_evaluate_completes : ¬ ∀ (setup : Setup Unit Unit Unit) (calls : List (Call Unit Unit Unit))
    (site : Site Unit Unit Unit), site = (Site.start () ()).run setup calls →
    ∀ l ∈ site.linked, ∀ ns engine world,
      site.engine.evaluate setup.interpreter l site.world = (some (.ok ns), engine, world) →
      ∀ m, ReflTransGen engine.registry.DependsOn l.graph.entry m →
        engine.registry.progressOf? m = some .completed := by
  intro completes
  generalize ended : (Site.start () ()).run Sample.failing Sample.partly = site
  have state : ∃ l ∈ site.linked, l.graph.entry = ⟨1⟩ ∧
      (site.engine.evaluate Sample.failing.interpreter l site.world).1.map Except.isOk = some true ∧
      ((site.engine.evaluate Sample.failing.interpreter l site.world).2.1.registry.get? ⟨1⟩).map
        Instance.targets = some [⟨0⟩, ⟨2⟩] ∧
      (site.engine.evaluate Sample.failing.interpreter l site.world).2.1.registry.progressOf? ⟨0⟩ =
        some (.errored (.thrown "no")) := by
    rw [← ended]
    decide +kernel
  obtain ⟨l, member, entry, success, targets, failed⟩ := state
  rcases ran : site.engine.evaluate Sample.failing.interpreter l site.world with
    ⟨outcome, engine, world⟩
  rw [ran] at success targets failed
  obtain ⟨i, known, asked⟩ := Option.map_eq_some_iff.mp targets
  rcases outcome with _ | e | ns
  · cases success
  · cases success
  · have depends : engine.registry.DependsOn l.graph.entry ⟨0⟩ := by
      rw [entry]
      exact ⟨i, known, by simp [asked]⟩
    have completed := completes Sample.failing Sample.partly site ended.symm l member ns engine world
      ran ⟨0⟩ (.single depends)
    cases failed.symm.trans completed

end Site
end MixedModules
