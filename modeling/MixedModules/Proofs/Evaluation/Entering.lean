import MixedModules.Proofs.Evaluation.Descent
import MixedModules.Proofs.Evaluation.Moves

/-! The moment at which a module is run.

A traversal comes to a module on a way of dependencies, visits all that the module depends
on, and runs it then. At this moment each dependency is completed, or it is on the way down
and waits in its turn. Whatever the run does to the world is part of what the whole
traversal does. -/
namespace MixedModules
open Relation

variable {κ σ : Type}

namespace Machine

/-- Below its visit of `m` a traversal comes to run a module, in the machine `moment`. `way`
are the modules that were begun on the way down to it, which is the first of them. -/
inductive Enters (interpreter : Interpreter κ σ) (traversal : Nat) : (depth : Nat) →
    (m : ModuleId) → (machine : Machine κ σ) → (way : List ModuleId) → (moment : Machine κ σ) →
    Prop where
  | own {depth : Nat} {m : ModuleId} {machine moment : Machine κ σ} {i : Instance κ}
      {begun : Registry κ} (begins : machine.registry.Begins traversal m i begun)
      (ready : i.targets.forM (visit interpreter traversal depth) ⟨begun, machine.world⟩ =
        (some (.ok ()), moment)) :
      Enters interpreter traversal (depth + 1) m machine [m] moment
  | deeper {depth : Nat} {m target : ModuleId} {machine between moment : Machine κ σ}
      {i : Instance κ} {begun : Registry κ} {first rest way : List ModuleId}
      (begins : machine.registry.Begins traversal m i begun)
      (parts : i.targets = first ++ target :: rest)
      (ready : first.forM (visit interpreter traversal depth) ⟨begun, machine.world⟩ =
        (some (.ok ()), between))
      (enters : Enters interpreter traversal depth target between way moment) :
      Enters interpreter traversal (depth + 1) m machine (way ++ [m]) moment

section Account

variable {interpreter : Interpreter κ σ} {traversal depth : Nat} {m : ModuleId} {way : List ModuleId}
  {machine moment : Machine κ σ}

/-- No module is completed by being begun. -/
theorem Accounted.begins {begun : Registry κ} {i : Instance κ} (accounted : Accounted machine)
    (begins : machine.registry.Begins traversal m i begun) : Accounted ⟨begun, machine.world⟩ := by
  cases begins with
  | @root c component known =>
    have claimed : Accounted
        ⟨machine.registry.setComponent c ⟨component.members, .held traversal⟩, machine.world⟩ :=
      ⟨accounted.ordered, accounted.finished⟩
    exact claimed.modify (completesNone_setProgress m (by simp))
  | inner known => exact accounted.modify (completesNone_setProgress m (by simp))

theorem Accounted.visits {begun : Registry κ} {i : Instance κ} {todo : List ModuleId}
    (accounted : Accounted machine) (begins : machine.registry.Begins traversal m i begun)
    (ready : todo.forM (visit interpreter traversal depth) ⟨begun, machine.world⟩ =
      (some (.ok ()), moment)) : Accounted moment := by
  have below : Accounts (todo.forM (visit interpreter traversal depth)) :=
    .forM (Accounts.visit traversal depth)
  have after := below _ (accounted.begins begins)
  rwa [ready] at after

/-- What is recorded as completed when a module is run has gone through all of its
evaluation. -/
theorem Enters.accounted (enters : Enters interpreter traversal depth m machine way moment)
    (before : Accounted machine) : Accounted moment := by
  induction enters with
  | own begins ready => exact before.visits begins ready
  | deeper begins parts ready _ ih => exact ih (before.visits begins ready)

end Account

section Steps

variable {interpreter : Interpreter κ σ} {r now begun : Registry κ} {traversal depth : Nat}
  {path seen way : List ModuleId} {m : ModuleId} {i : Instance κ} {w : World κ σ}
  {machine moment between : Machine κ σ} {todo : List ModuleId} (linkage : r.Linkage)
  (settled : r.Settled)

/-- What comes true in a row of visits comes true in one of them. -/
theorem exists_visit_of_forM {visit : ModuleId → Run (Machine κ σ) Unit} {P : Machine κ σ → Prop}
    (before : ¬ P machine) (after : P (todo.forM visit machine).2) :
    ∃ first target rest between, todo = first ++ target :: rest ∧
      first.forM visit machine = (some (.ok ()), between) ∧ ¬ P between ∧
      P (visit target between).2 := by
  induction todo generalizing machine with
  | nil => exact absurd after before
  | cons m todo ih =>
    by_cases here : P (visit m machine).2
    · exact ⟨[], m, todo, machine, rfl, rfl, before, here⟩
    rw [Run.forM_cons_apply, Run.bind_apply] at after
    rcases ran : visit m machine with ⟨_ | _ | _, next⟩ <;> rw [ran] at after here
    · exact absurd after here
    · exact absurd after here
    obtain ⟨first, target, rest, between, rfl, ready, reached⟩ := ih here after
    refine ⟨m :: first, target, rest, between, rfl, ?_, reached⟩
    rw [Run.forM_cons_apply, Run.bind_apply, ran]
    exact ready

include linkage settled

/-- A row of visits goes step by step. -/
theorem goes_visits (descends : r.Descends traversal path seen now)
    (deep : r.size < depth + path.length)
    (below : ∀ m ∈ todo, r.Linked m ∧ ∀ top ∈ path.head?, r.DependsOn top m)
    {outcome : Option (Except EvalError Unit)}
    (ran : todo.forM (visit interpreter traversal depth) ⟨now, w⟩ = (outcome, between)) :
    World.Goes interpreter r.Home w between.world := by
  obtain ⟨order, stop, after, _, followed⟩ :=
    exists_followed linkage settled descends.under deep below ran
  have world : between.world = _ := followed.world
  rw [world]
  exact goes_runSearch stop order w

/-- What has been visited is completed, or it is on the way down. -/
theorem covered_visits (descends : r.Descends traversal path seen now)
    (deep : r.size < depth + path.length)
    (below : ∀ m ∈ todo, r.Linked m ∧ ∀ top ∈ path.head?, r.DependsOn top m)
    (ready : todo.forM (visit interpreter traversal depth) ⟨now, w⟩ = (some (.ok ()), between)) :
    ∀ m ∈ todo, between.registry.progressOf? m = some .inProgress ∨
      between.registry.progressOf? m = some .completed := by
  obtain ⟨order, stop, after, search, followed⟩ :=
    exists_followed linkage settled descends.under deep below ready
  obtain rfl := followed.stop_eq_none rfl
  obtain ⟨e, done, here, sound, seen_iff⟩ := followed.ends
  intro m member
  rcases search.covers m member with seen | completed
  · rcases (seen_iff m).mp seen with stacked | finished
    · exact .inl ((here.inProgress_iff sound settled).mpr stacked)
    · exact .inr ((here.completed_iff sound).mpr (.inl finished))
  · exact .inr ((here.completed_iff sound).mpr (.inr completed))

/-- A module that is begun has the targets that it depends on. -/
theorem begins_targets {e : EvalError} {done : List ModuleId}
    (here : r.At traversal e ⟨path, done, []⟩ now) (begins : now.Begins traversal m i begun)
    {target : ModuleId} (depends : r.DependsOn m target) : target ∈ i.targets := by
  obtain ⟨j, _, _, known, rfl, _⟩ := begins_cases linkage settled here begins
  obtain ⟨j', known', member⟩ := depends
  cases known.symm.trans known'
  exact member

/-- How a traversal has come from `m` to the module that is first on the way. -/
structure Arrives (interpreter : Interpreter κ σ) (r : Registry κ) (traversal : Nat)
    (path : List ModuleId) (m : ModuleId) (machine : Machine κ σ) (way : List ModuleId)
    (moment : Machine κ σ) : Prop where
  descends : ∃ seen, r.Descends traversal (way ++ path) seen moment.registry
  goes : World.Goes interpreter r.Home machine.world moment.world
  chain : way.IsChain fun later earlier => r.DependsOn earlier later
  start : way.getLast? = some m
  linked : ∀ x ∈ way.head?, r.Linked x
  ready : ∀ x ∈ way.head?, ∀ target, r.DependsOn x target →
    moment.registry.progressOf? target = some .inProgress ∨
      moment.registry.progressOf? target = some .completed

/-- When a module is run, all that it depends on is completed or on the way down to it. -/
theorem Enters.arrives (enters : Enters interpreter traversal depth m machine way moment)
    (descends : r.Descends traversal path seen machine.registry)
    (led : ∀ top ∈ path.head?, r.DependsOn top m) (deep : r.size < depth + path.length) :
    Arrives interpreter r traversal path m machine way moment := by
  induction enters generalizing path seen with
  | @own depth m machine moment i begun begins ready =>
    obtain ⟨linked, below, descends'⟩ := descends_begins linkage settled descends begins led
    have deep' : r.size < depth + (m :: path).length := deep_below m deep
    obtain ⟨e, done, here, _⟩ := descends.under
    have goes := goes_visits linkage settled descends' deep' below ready
    refine ⟨descends_visits linkage settled descends' deep' below ready, goes, .singleton m, rfl, ?_, ?_⟩
    · rintro _ ⟨⟩
      exact linked
    · rintro _ ⟨⟩ target depends
      exact covered_visits linkage settled descends' deep' below ready target
        (begins_targets linkage settled here begins depends)
  | @deeper depth m target machine between moment i begun first rest way begins parts ready _ ih =>
    obtain ⟨_, below, descends'⟩ := descends_begins linkage settled descends begins led
    have deep' : r.size < depth + (m :: path).length := deep_below m deep
    rw [parts] at below
    have early := fun x held => below x (List.mem_append_left (target :: rest) held)
    obtain ⟨seen', descends''⟩ := descends_visits linkage settled descends' deep' early ready
    have goes := goes_visits linkage settled descends' deep' early ready
    obtain ⟨_, ledTarget⟩ := below target (by simp)
    obtain ⟨under, onward, chain, start, linked, covered⟩ := ih descends'' ledTarget deep'
    have top : (way ++ [m]).head? = way.head? := by
      cases way with
      | nil => cases start
      | cons _ _ => rfl
    refine ⟨by simpa using under, goes.trans onward, ?_, by simp, top ▸ linked, top ▸ covered⟩
    refine List.isChain_append.mpr ⟨chain, .singleton m, fun x final y only => ?_⟩
    cases only
    cases start.symm.trans final
    exact ledTarget _ rfl

/-- What is left to do for a module on the way down goes step by step. -/
theorem goes_onward {next : Machine κ σ} (descends : r.Descends traversal (m :: path) seen next.registry)
    (deep : r.size < depth + (m :: path).length)
    (below : ∀ x ∈ todo, r.Linked x ∧ ∀ top ∈ (m :: path).head?, r.DependsOn top x) :
    World.Goes interpreter r.Home next.world
      ((do todo.forM (visit interpreter traversal depth); execute interpreter m :
        Run (Machine κ σ) Unit) next).2.world := by
  rw [Run.bind_apply]
  rcases ran : todo.forM (visit interpreter traversal depth) next with ⟨_ | _ | _, last⟩
  all_goals have visits := goes_visits linkage settled descends deep below ran
  · exact visits
  · exact visits
  · obtain ⟨_, descends'⟩ := descends_visits linkage settled descends deep below ran
    obtain ⟨e, done, here, sound, _⟩ := descends'.under
    refine visits.trans ?_
    change World.Goes interpreter r.Home last.world
      (execute interpreter m ⟨last.registry, last.world⟩).2.world
    rw [execute_at here (sound.fresh m (.inl List.mem_cons_self)).1]
    exact goes_program m last.world

/-- What a run does to the world is part of what the visit does that has come to it. -/
theorem Enters.since (enters : Enters interpreter traversal depth m machine way moment)
    (descends : r.Descends traversal path seen machine.registry)
    (led : ∀ top ∈ path.head?, r.DependsOn top m) (deep : r.size < depth + path.length) {x : ModuleId}
    (top : way.head? = some x) :
    World.Goes interpreter r.Home (execute interpreter x moment).2.world
      (visit interpreter traversal depth m machine).2.world := by
  induction enters generalizing path seen with
  | @own depth m machine moment i begun begins ready =>
    obtain rfl : m = x := Option.some.inj top
    obtain ⟨e, done, here, _⟩ := descends.under
    rcases result : execute interpreter m moment with ⟨outcome, after⟩
    have ran : (do i.targets.forM (visit interpreter traversal depth); execute interpreter m :
        Run (Machine κ σ) Unit) ⟨begun, machine.world⟩ = (outcome, after) := by
      rw [Run.bind_apply, ready]
      exact result
    obtain ⟨root, ended⟩ := visit_begins (w := machine.world) linkage settled here begins ran
    have same : (visit interpreter traversal (depth + 1) m machine).2.world = after.world :=
      congrArg (fun result => result.2.world) ended
    rw [same]
    exact .refl _
  | @deeper depth m target machine between moment i begun first rest way begins parts ready enters ih =>
    obtain ⟨_, below, descends'⟩ := descends_begins linkage settled descends begins led
    have deep' : r.size < depth + (m :: path).length := deep_below m deep
    rw [parts] at below
    obtain ⟨seen', descends''⟩ := descends_visits linkage settled descends' deep'
      (fun x held => below x (List.mem_append_left _ held)) ready
    have ledTarget := (below target (by simp)).2
    have inner := ih descends'' ledTarget deep' (by
      rwa [List.head?_append_of_ne_nil] at top
      rintro rfl
      exact absurd (enters.arrives linkage settled descends'' ledTarget deep').start (by simp))
    obtain ⟨e, done, here, _⟩ := descends.under
    rcases ran : (do i.targets.forM (visit interpreter traversal depth); execute interpreter m :
        Run (Machine κ σ) Unit) ⟨begun, machine.world⟩ with ⟨outcome, after⟩
    obtain ⟨root, ended⟩ := visit_begins (w := machine.world) linkage settled here begins ran
    have same : (visit interpreter traversal (depth + 1) m machine).2.world = after.world :=
      congrArg (fun result => result.2.world) ended
    rw [same]
    refine inner.trans ?_
    rw [parts, Run.forM_split ready, Run.bind_apply] at ran
    have one := fun x (only : x ∈ [target]) => below x (by simp [List.mem_singleton.mp only])
    rcases visited : visit interpreter traversal depth target between with ⟨_ | _ | _, next⟩ <;>
      rw [visited] at ran
    · cases ran
      exact .refl _
    · cases ran
      exact .refl _
    · have alone : [target].forM (visit interpreter traversal depth) between = (some (.ok ()), next) :=
        (Run.forM_singleton_apply ..).trans visited
      obtain ⟨_, last⟩ := descends_visits linkage settled descends'' deep' one alone
      have onward : World.Goes interpreter r.Home next.world _ := goes_onward linkage settled last deep'
        fun x held => below x (List.mem_append_right _ (List.mem_cons_of_mem _ held))
      simp only at ran
      rwa [ran] at onward

/-- A traversal comes to run every module that it enters. -/
theorem exists_enters (descends : r.Descends traversal path seen now) (linked : r.Linked m)
    (led : ∀ top ∈ path.head?, r.DependsOn top m) (deep : r.size < depth + path.length)
    {entering : Entering κ} (before : entering ∉ now.entered.events)
    (after : entering ∈ (visit interpreter traversal depth m ⟨now, w⟩).2.registry.entered.events) :
    ∃ way moment, Enters interpreter traversal depth m ⟨now, w⟩ (entering.module :: way) moment := by
  induction depth generalizing m path seen now w with
  | zero => exact absurd after before
  | succ depth ih =>
    obtain ⟨e, done, here, sound, _⟩ := descends.under
    obtain ⟨i, known, _⟩ := here.sameModules.linked_iff.mpr linked
    by_cases waiting : i.progress = .notStarted
    · obtain ⟨begun, begins⟩ := exists_begins linkage settled here sound linked known waiting
      obtain ⟨_, below, descends'⟩ := descends_begins linkage settled descends begins led
      have deep' : r.size < depth + (m :: path).length := deep_below m deep
      have unentered : entering ∉ begun.entered.events := by
        cases begins <;> exact before
      rcases ran : (do i.targets.forM (visit interpreter traversal depth); execute interpreter m :
        Run (Machine κ σ) Unit) ⟨begun, w⟩ with ⟨outcome, last⟩
      obtain ⟨root, ended⟩ := visit_begins linkage settled here begins ran
      have entered : entering ∈ last.registry.entered.events := by
        rw [ended] at after
        exact Registry.entered_leaving last.registry m root outcome ▸ after
      by_cases own : entering ∈
        (i.targets.forM (visit interpreter traversal depth) ⟨begun, w⟩).2.registry.entered.events
      · -- It is entered below one of the modules that this one depends on.
        obtain ⟨first, target, rest, between, parts, ready, open_, reached⟩ :=
          exists_visit_of_forM (P := fun machine => entering ∈ machine.registry.entered.events)
            unentered own
        rw [parts] at below
        obtain ⟨_, descends''⟩ := descends_visits linkage settled descends' deep'
          (fun x held => below x (List.mem_append_left _ held)) ready
        obtain ⟨linkedTarget, ledTarget⟩ := below target (by simp)
        obtain ⟨way, moment, enters⟩ := ih descends'' linkedTarget ledTarget deep' open_ reached
        exact ⟨_, moment, .deeper begins parts ready enters⟩
      · rw [Run.bind_apply] at ran
        rcases visited : i.targets.forM (visit interpreter traversal depth) ⟨begun, w⟩ with
          ⟨_ | _ | _, between⟩ <;> rw [visited] at ran own
        · cases ran
          exact absurd entered own
        · cases ran
          exact absurd entered own
        obtain ⟨_, descends''⟩ := descends_visits linkage settled descends' deep' below visited
        obtain ⟨_, _, here', _⟩ := descends''.under
        change execute interpreter m ⟨between.registry, between.world⟩ = _ at ran
        rw [execute_at here' linked] at ran
        cases ran
        rw [Registry.enter, Chronicle.events_add] at entered
        obtain rfl := (List.mem_cons.mp entered).resolve_right own
        exact ⟨[], between, .own begins visited⟩
    · rw [visit_begun linkage settled here linked known waiting] at after
      split at after <;> exact absurd after before

end Steps
end Machine
end MixedModules
