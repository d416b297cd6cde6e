import Mathlib.Data.List.Chain
import Mathlib.Data.List.Dedup
import MixedModules.Proofs.Evaluation.Outcome

/-! Where a traversal fails, and how far the failure reaches.

The first failure of a traversal arises below the modules that it has begun and not
finished: one of them fails itself, or asks for a module that an earlier traversal has
recorded as failed. From there on nothing more is visited. Each module on the way down
is given up in turn, and the last one of its component takes the rest of it along. -/
namespace MixedModules
open Relation

variable {κ σ : Type}

/-- A traversal begins a module: nobody held the claim of its component, or the
traversal has held it and the module waits. -/
inductive Registry.Begins (r : Registry κ) (traversal : Nat) (m : ModuleId) (i : Instance κ) :
    (begun : Registry κ) → Prop where
  | root {c : ComponentId} {component : Component} (known : r.get? m = some i)
      (place : i.component = some c) (held : r.component? c = some component)
      (claim : component.claim = .free) :
      r.Begins traversal m i
        ((r.setComponent c { component with claim := .held traversal }).setProgress m .inProgress)
  | inner {c : ComponentId} {component : Component} (known : r.get? m = some i)
      (place : i.component = some c) (held : r.component? c = some component)
      (claim : component.claim = .held traversal) (waiting : i.progress = .notStarted) :
      r.Begins traversal m i (r.setProgress m .inProgress)

/-- Records how the evaluation of a module ended, and gives up the claim of its component if
the module was the first of it that was begun. -/
def Registry.leaving (r : Registry κ) (m : ModuleId) (root : Option ComponentId)
    (outcome : Option (Except EvalError Unit)) : Registry κ :=
  match root with
  | none => r.ending m outcome
  | some c => (r.ending m outcome).closing c outcome

@[simp] theorem Registry.entered_leaving (r : Registry κ) (m : ModuleId) (root : Option ComponentId)
    (outcome : Option (Except EvalError Unit)) : (r.leaving m root outcome).entered = r.entered := by
  cases root with
  | none => exact entered_ending r m outcome
  | some c => exact (entered_closing _ c outcome).trans (entered_ending r m outcome)

namespace Machine

/-- The first failure below the visit of a module. `path` are the modules that were begun
on the way down to it, the latest first, and `moment` is the machine as it arises. -/
inductive FailsAt (interpreter : Interpreter κ σ) (traversal : Nat) : (depth : Nat) →
    (m : ModuleId) → (machine : Machine κ σ) → (path : List ModuleId) → (moment : Machine κ σ) →
    (e : EvalError) → Prop where
  | recorded {depth : Nat} {m : ModuleId} {machine : Machine κ σ} {i : Instance κ} {e : EvalError}
      (known : machine.registry.get? m = some i) (failed : i.progress = .errored e) :
      FailsAt interpreter traversal (depth + 1) m machine [] machine e
  | own {depth : Nat} {m : ModuleId} {machine below moment : Machine κ σ} {i : Instance κ}
      {begun : Registry κ} {e : EvalError} (begins : machine.registry.Begins traversal m i begun)
      (ready : i.targets.forM (visit interpreter traversal depth) ⟨begun, machine.world⟩ =
        (some (.ok ()), below))
      (fails : execute interpreter m below = (some (.error e), moment)) :
      FailsAt interpreter traversal (depth + 1) m machine [m] moment e
  | deeper {depth : Nat} {m target : ModuleId} {machine between moment : Machine κ σ}
      {i : Instance κ} {begun : Registry κ} {first rest path : List ModuleId} {e : EvalError}
      (begins : machine.registry.Begins traversal m i begun)
      (parts : i.targets = first ++ target :: rest)
      (ready : first.forM (visit interpreter traversal depth) ⟨begun, machine.world⟩ =
        (some (.ok ()), between))
      (fails : FailsAt interpreter traversal depth target between path moment e) :
      FailsAt interpreter traversal (depth + 1) m machine (path ++ [m]) moment e

end Machine

/-- A traversal on its way down where nothing failed. It has seen whatever it entered. -/
structure Registry.Descends (r : Registry κ) (traversal : Nat) (path seen : List ModuleId)
    (now : Registry κ) : Prop where
  under : r.Under traversal path seen now
  entered : ∃ news, now.entered.events = news ++ r.entered.events ∧ ∀ x ∈ news, x.module ∈ seen

/-- A traversal has begun nothing at first. -/
theorem Registry.Descends.start (r : Registry κ) (traversal : Nat) : r.Descends traversal [] [] r where
  under := ⟨.notLinked "", [], .start, .start, by simp⟩
  entered := ⟨[], rfl, by simp⟩

/-- A module on top of the way down is given up after what failed below it. It is taken
along with other modules of its component at most. -/
structure Registry.GivesUp (r : Registry κ) (traversal : Nat) (e : EvalError) (m : ModuleId)
    (path done doomed doomed' : List ModuleId) (below later : Registry κ) : Prop where
  here : r.At traversal e ⟨path, done, doomed'⟩ later
  sound : Stage.Sound r ⟨path, done, doomed'⟩
  entered : later.entered = below.entered
  own : m ∈ doomed'
  kept : ∀ x ∈ doomed, x ∈ doomed'
  alike : ∀ x ∈ doomed', x ∈ doomed ∨ r.componentOf? x = r.componentOf? m

/-- How far a traversal had come when a failure arose at `moment`, and how far it is back
when the modules of `suffix` are given up: only their components are taken along. -/
structure Registry.Spread (r : Registry κ) (traversal : Nat) (e : EvalError)
    (suffix path done doomed : List ModuleId) (moment later : Registry κ) : Prop where
  down : r.At traversal e ⟨suffix ++ path, done, []⟩ moment
  soundDown : Stage.Sound r ⟨suffix ++ path, done, []⟩
  up : r.At traversal e ⟨path, done, doomed⟩ later
  sound : Stage.Sound r ⟨path, done, doomed⟩
  /-- Nothing is entered on the way up. -/
  entered : later.entered = moment.entered
  given : ∀ x ∈ suffix, x ∈ doomed
  alike : ∀ x ∈ doomed, ∃ y ∈ suffix, r.componentOf? x = r.componentOf? y

namespace Registry.Spread

variable {r moment below later : Registry κ} {traversal : Nat} {e : EvalError} {m : ModuleId}
  {suffix path done doomed doomed' : List ModuleId}

/-- At first nothing is given up. -/
theorem start (here : r.At traversal e ⟨path, done, []⟩ moment)
    (sound : Stage.Sound r ⟨path, done, []⟩) :
    r.Spread traversal e [] path done [] moment moment :=
  ⟨here, sound, here, sound, rfl, by simp, by simp⟩

theorem extend (spread : r.Spread traversal e suffix (m :: path) done doomed moment below)
    (gives : r.GivesUp traversal e m path done doomed doomed' below later) :
    r.Spread traversal e (suffix ++ [m]) path done doomed' moment later := by
  have whole : (suffix ++ [m]) ++ path = suffix ++ m :: path := by simp
  refine ⟨by rw [whole]; exact spread.down, by rw [whole]; exact spread.soundDown, gives.here,
    gives.sound, gives.entered.trans spread.entered, fun x held => ?_, fun x taken => ?_⟩
  · rcases List.mem_append.mp held with held | held
    · exact gives.kept x (spread.given x held)
    · rw [List.mem_singleton.mp held]
      exact gives.own
  · rcases gives.alike x taken with early | shares
    · obtain ⟨y, held, shares⟩ := spread.alike x early
      exact ⟨y, List.mem_append_left _ held, shares⟩
    · exact ⟨m, by simp, shares⟩

end Registry.Spread

/-- A failure that arose at `moment` has been carried up from below `m` to `path`. The
modules of `suffix`, which lead from `m` down to it, are given up. -/
structure Registry.Climbs (r : Registry κ) (traversal : Nat) (e : EvalError) (m : ModuleId)
    (suffix path : List ModuleId) (moment later : Registry κ) : Prop where
  spread : ∃ done doomed, r.Spread traversal e suffix path done doomed moment later ∧
    ∃ news, moment.entered.events = news ++ r.entered.events ∧
      ∀ x ∈ news, x.module ∈ suffix ++ path ∨ x.module ∈ done
  way : suffix.IsChain fun later earlier => r.DependsOn earlier later
  start : suffix.getLast? = some m ∨ suffix = [] ∧ r.progressOf? m = some (.errored e)
  /-- The last module that was begun was entered last, or it asked for one that had
  failed before. -/
  cause : (∃ x older, moment.entered.events = x :: older ∧ suffix.head? = some x.module) ∨
    ∃ target, r.progressOf? target = some (.errored e) ∧ ∀ top ∈ suffix.head?, r.DependsOn top target

/-- As long as nothing failed, the failures there are were there before. -/
theorem Registry.At.errored_before {r now : Registry κ} {traversal : Nat} {e e' : EvalError}
    {path done : List ModuleId} {m : ModuleId} (here : r.At traversal e' ⟨path, done, []⟩ now)
    (sound : Stage.Sound r ⟨path, done, []⟩) (failed : now.progressOf? m = some (.errored e)) :
    r.progressOf? m = some (.errored e) := by
  have shows := here.shows sound m
  generalize now.progressOf? m = shown at shows failed
  cases shows with
  | running => cases failed
  | completed => cases failed
  | failed taken => cases taken
  | spared => exact failed

namespace Machine

section Steps

variable {interpreter : Interpreter κ σ} {r now begun : Registry κ} {traversal depth : Nat}
  {path seen : List ModuleId} {m : ModuleId} {i : Instance κ} {w : World κ σ} {e : EvalError}
  (linkage : r.Linkage) (settled : r.Settled)

include linkage settled

/-- A row of visits does what a search tells. -/
theorem exists_followed {todo : List ModuleId} (under : r.Under traversal path seen now)
    (deep : r.size < depth + path.length)
    (below : ∀ m ∈ todo, r.Linked m ∧ ∀ top ∈ path.head?, r.DependsOn top m)
    {result : Option (Except EvalError Unit) × Machine κ σ}
    (ran : todo.forM (visit interpreter traversal depth) ⟨now, w⟩ = result) :
    ∃ order stop after, PostOrder r path todo seen.dedup order stop after ∧
      Followed interpreter r traversal path after order stop now w result := by
  obtain ⟨e, done, here, sound, seen_iff⟩ := under
  have seen_iff' : ∀ m, m ∈ seen.dedup ↔ m ∈ path ∨ m ∈ done := fun m => by
    rw [List.mem_dedup, seen_iff]
  have registered : ∀ m ∈ seen.dedup, m.index < r.size := fun m held => by
    obtain ⟨i, known, _⟩ := (sound.fresh m (((seen_iff' m).mp held).imp_right .inl)).1
    exact Registry.lt_size_of_get? known
  obtain ⟨order, stop, after, search⟩ : ∃ order stop after,
      PostOrder r path todo seen.dedup order stop after :=
    exists_search linkage settled (fun m member => (below m member).1) seen.nodup_dedup registered
  exact ⟨order, stop, after, search,
    ran ▸ visits_follow linkage settled search ⟨e, done, here, sound, seen_iff'⟩ deep below⟩

/-- A row of visits that succeeds leaves the traversal where it was on its way down. -/
theorem descends_visits {todo : List ModuleId} {between : Machine κ σ}
    (descends : r.Descends traversal path seen now) (deep : r.size < depth + path.length)
    (below : ∀ m ∈ todo, r.Linked m ∧ ∀ top ∈ path.head?, r.DependsOn top m)
    (ready : todo.forM (visit interpreter traversal depth) ⟨now, w⟩ = (some (.ok ()), between)) :
    ∃ seen', r.Descends traversal path seen' between.registry := by
  obtain ⟨under, news, events, told⟩ := descends
  obtain ⟨order, stop, after, search, followed⟩ :=
    exists_followed linkage settled under deep below ready
  obtain ⟨_, _, ⟨more, events', told'⟩, _, _, ends⟩ := followed
  refine ⟨after, ends, more ++ news, by rw [events', events, List.append_assoc], fun x member => ?_⟩
  rcases List.mem_append.mp member with late | early
  · have listed : x.module ∈ (runSearch interpreter r stop order w).1.map (·.1) := by
      rw [← modules_of_told told']
      exact List.mem_map_of_mem (List.mem_reverse.mpr late)
    obtain ⟨entry, ran, same⟩ := List.mem_map.mp listed
    have part : (runSearch interpreter r stop order w).1 <+: order := runInOrder_prefix order w
    exact same ▸ (search.fresh.2 entry (part.subset ran)).2.1
  · exact search.kept _ (List.mem_dedup.mpr (told x early))

/-- What a traversal begins was not begun before. Either it is the first module of its
component on the way down, or the claim is held for one that is there. -/
theorem begins_cases {done : List ModuleId} (here : r.At traversal e ⟨path, done, []⟩ now)
    (begins : now.Begins traversal m i begun) :
    ∃ j c component, r.get? m = some j ∧ i = { j with progress := .notStarted } ∧
      j.progress = .notStarted ∧ m ∉ path ∧ m ∉ done ∧ j.component = some c ∧
      r.component? c = some component ∧ m ∈ component.members ∧
      ((∀ x ∈ path, r.componentOf? x ≠ some c) ∧
          now.component? c = some { component with claim := .free } ∧
          begun = (now.setComponent c ⟨component.members, .held traversal⟩).setProgress m
            .inProgress ∨
        (∃ x ∈ path, r.componentOf? x = some c) ∧
          now.component? c = some { component with claim := .held traversal } ∧
          begun = now.setProgress m .inProgress) := by
  have before : ∀ {x : Instance κ}, now.get? m = some x → ∃ j, r.get? m = some j ∧
      x = { j with progress := Stage.progress ⟨path, done, []⟩ e m j.progress } := by
    intro x known
    rw [here.modules] at known
    obtain ⟨j, there, same⟩ := Option.map_eq_some_iff.mp known
    exact ⟨j, there, same.symm⟩
  have home : ∀ {j : Instance κ} {c : ComponentId} {claimed : Component}, r.get? m = some j →
      j.component = some c → now.component? c = some claimed → ∃ component,
        r.component? c = some component ∧ m ∈ component.members ∧
        claimed = { component with claim := Stage.claim ⟨path, done, []⟩ traversal component } := by
    intro j c claimed known place held
    rw [here.components] at held
    obtain ⟨component, there, rfl⟩ := Option.map_eq_some_iff.mp held
    have shares : r.componentOf? m = some c := by
      simpa [Registry.componentOf?, known] using place
    exact ⟨component, there, (Registry.At.member_iff linkage there).mpr shares, rfl⟩
  cases begins with
  | @root c claimed known place held claim =>
    obtain ⟨j, known', rfl⟩ := before known
    obtain ⟨component, there, member, rfl⟩ := home known' place held
    -- The claim shows that no member is on the way down, completed or begun before.
    simp only [Stage.claim] at claim held
    split at claim
    · cases claim
    split at claim
    · cases claim
    rename_i unheld unfinished
    have root : ∀ x ∈ path, r.componentOf? x ≠ some c := fun x stacked shares =>
      unheld ⟨x, (Registry.At.member_iff linkage there).mpr shares, stacked⟩
    have waiting : r.progressOf? m = some .notStarted := by
      rcases settled.claims c component there with ⟨_, waiting⟩ | ⟨released, _⟩
      · exact waiting m member
      · rw [claim] at released
        cases released
    obtain ⟨j', same, waiting⟩ := Registry.progressOf?_eq_some_iff.mp waiting
    cases known'.symm.trans same
    have unstacked : m ∉ path := fun stacked => unheld ⟨m, member, stacked⟩
    have undone : m ∉ done := fun finished => unfinished ⟨m, member, .inl finished⟩
    refine ⟨j, c, component, known', by simp [Stage.progress, unstacked, undone, waiting], waiting,
      unstacked, undone, place, there, member, .inl ⟨root, ?_, rfl⟩⟩
    rw [held, if_neg unheld, if_neg unfinished, claim]
  | @inner c claimed known place held claim waiting =>
    obtain ⟨j, known', rfl⟩ := before known
    obtain ⟨component, there, member, rfl⟩ := home known' place held
    simp only at claim waiting
    simp only [claim] at held
    have unstacked : m ∉ path := fun stacked => by simp [Stage.progress, stacked] at waiting
    have undone : m ∉ done := fun finished => by
      simp [Stage.progress, unstacked, finished] at waiting
    have idle : j.progress = .notStarted := by
      simpa [Stage.progress, unstacked, undone] using waiting
    refine ⟨j, c, component, known', by rw [waiting], idle, unstacked, undone, place, there, member,
      .inr ⟨?_, held, rfl⟩⟩
    simp only [Stage.claim] at claim
    split at claim
    · rename_i stacked
      obtain ⟨x, inside, stacked⟩ := stacked
      exact ⟨x, stacked, (Registry.At.member_iff linkage there).mp inside⟩
    split at claim
    · cases claim
    · have open_ := settled.untouched there member
        (Registry.progressOf?_eq_some_iff.mpr ⟨j, known', idle⟩)
      rw [open_.1] at claim
      cases claim

/-- A module that is begun is one more on the way down. -/
theorem descends_begins (descends : r.Descends traversal path seen now)
    (begins : now.Begins traversal m i begun) (led : ∀ top ∈ path.head?, r.DependsOn top m) :
    r.Linked m ∧
      (∀ target ∈ i.targets, r.Linked target ∧ ∀ top ∈ (m :: path).head?, r.DependsOn top target) ∧
      r.Descends traversal (m :: path) (m :: seen) begun := by
  obtain ⟨⟨e, done, here, sound, seen_iff⟩, news, events, told⟩ := descends
  obtain ⟨j, c, component, known, rfl, waiting, unstacked, undone, place, there, member, claims⟩ :=
    begins_cases linkage settled here begins
  have shares : r.componentOf? m = some c := by simpa [Registry.componentOf?, known] using place
  have linked := (linkage.placed m).mpr ⟨c, shares⟩
  have sound' := sound.push linked (Registry.progressOf?_eq_some_iff.mpr ⟨j, known, waiting⟩)
    unstacked undone led
  refine ⟨linked, fun target held => targets_below linkage linked known target held,
    ⟨e, done, ?_, sound', fun x => ?_⟩, news, ?_, fun x late => List.mem_cons_of_mem m (told x late)⟩
  · rcases claims with ⟨_, free, rfl⟩ | ⟨_, mine, rfl⟩
    · refine here.push linkage shares (fun x => Registry.get?_setComponent ..) fun c' => ?_
      rw [Registry.component?_setComponent]
      by_cases same : c' = c
      · subst same
        rw [if_pos rfl, if_pos rfl, free, there]
        rfl
      · rw [if_neg same, if_neg (Ne.symm same)]
    · refine here.push linkage shares (fun _ => rfl) fun c' => ?_
      by_cases same : c' = c
      · subst same
        rw [if_pos rfl, mine, there]
        rfl
      · rw [if_neg same]
  · rw [List.mem_cons, List.mem_cons, seen_iff, or_assoc]
  · rcases claims with ⟨_, _, rfl⟩ | ⟨_, _, rfl⟩ <;> exact events

/-- What fails below a module that was begun is recorded for the module, and for the rest
of its component when the module is the first of it on the way down. -/
theorem visit_fails {done doomed : List ModuleId} {below : Machine κ σ}
    (start : r.At traversal e ⟨path, done, []⟩ now) (begins : now.Begins traversal m i begun)
    (fails : (do i.targets.forM (visit interpreter traversal depth); execute interpreter m :
      Run (Machine κ σ) Unit) ⟨begun, w⟩ = (some (.error e), below))
    {done' : List ModuleId} (here : r.At traversal e ⟨m :: path, done', doomed⟩ below.registry)
    (sound : Stage.Sound r ⟨m :: path, done', doomed⟩) :
    ∃ later doomed', visit interpreter traversal (depth + 1) m ⟨now, w⟩ = (some (.error e), later) ∧
      r.GivesUp traversal e m path done' doomed doomed' below.registry later.registry := by
  obtain ⟨j, c, component, known, rfl, waiting, _, _, place, there, member, claims⟩ :=
    begins_cases linkage settled start begins
  have shares : r.componentOf? m = some c := by simpa [Registry.componentOf?, known] using place
  have undone : m ∉ done' := fun finished => sound.apart m finished List.mem_cons_self
  have known' : now.get? m = some { j with progress := .notStarted } := by
    cases begins <;> assumption
  rcases claims with ⟨root, free, rfl⟩ | ⟨inner, mine, rfl⟩
  · have claimed : (now.setComponent c ⟨component.members, .held traversal⟩).get? m =
        some { j with progress := .notStarted } := (Registry.get?_setComponent ..).trans known'
    have untouched := (settled.untouched there member
      (Registry.progressOf?_eq_some_iff.mpr ⟨j, known, waiting⟩)).2
    refine ⟨{ below with registry :=
      (below.registry.ending m (some (.error e))).closing c (some (.error e)) },
      component.members ++ doomed, ?_, here.fail_root linkage there member root undone untouched,
      sound.fail_root linkage there member untouched, ?_, List.mem_append_left _ member,
      fun x before => List.mem_append_right _ before, fun x late => ?_⟩
    · rw [visit_free known' place free rfl, evaluateModule_apply _ claimed, fails]
    · exact (Registry.entered_closing ..).trans (Registry.entered_ending ..)
    · rcases List.mem_append.mp late with inside | before
      · exact .inr (((Registry.At.member_iff linkage there).mp inside).trans shares.symm)
      · exact .inl before
  · refine ⟨{ below with registry := below.registry.ending m (some (.error e)) }, m :: doomed, ?_,
      here.pop_inner linkage shares inner rfl (fun x different => ?_) (fun before => ?_),
      sound.fail_inner (by rwa [shares]), rfl, List.mem_cons_self,
      fun x before => List.mem_cons_of_mem m before, fun x late => ?_⟩
    · rw [visit_held known' place mine rfl]
      simp only
      rw [evaluateModule_apply _ known', fails]
    · exact ⟨by simp [different], Iff.rfl, by simp [different]⟩
    · simp [Stage.progress, (List.nodup_cons.mp sound.once).1, undone]
    · rcases List.mem_cons.mp late with rfl | before
      · exact .inr rfl
      · exact .inl before

/-- A module that is begun ends as what is run for it does, which is recorded then. -/
theorem visit_begins {done : List ModuleId} (here : r.At traversal e ⟨path, done, []⟩ now)
    (begins : now.Begins traversal m i begun) {outcome : Option (Except EvalError Unit)}
    {after : Machine κ σ}
    (ran : (do i.targets.forM (visit interpreter traversal depth); execute interpreter m :
      Run (Machine κ σ) Unit) ⟨begun, w⟩ = (outcome, after)) :
    ∃ root, visit interpreter traversal (depth + 1) m ⟨now, w⟩ =
      (outcome, { after with registry := after.registry.leaving m root outcome }) := by
  obtain ⟨j, c, component, known, rfl, _, _, _, place, _, _, claims⟩ :=
    begins_cases linkage settled here begins
  have known' : now.get? m = some { j with progress := .notStarted } := by
    cases begins <;> assumption
  rcases claims with ⟨_, free, rfl⟩ | ⟨_, mine, rfl⟩
  · refine ⟨some c, ?_⟩
    rw [visit_free known' place free rfl,
      evaluateModule_apply _ ((Registry.get?_setComponent ..).trans known'), ran]
    rfl
  · refine ⟨none, ?_⟩
    rw [visit_held known' place mine rfl]
    simp only
    rw [evaluateModule_apply _ known', ran]
    rfl

omit linkage settled in
/-- A module on the way down is entered in the machine as it is, and run. -/
theorem execute_at {done : List ModuleId} (here : r.At traversal e ⟨m :: path, done, []⟩ now)
    (linked : r.Linked m) : execute interpreter m ⟨now, w⟩ =
      ((program interpreter r m w).1, ⟨now.enter m, (program interpreter r m w).2⟩) := by
  obtain ⟨j, known, held⟩ := linked
  have known' := here.modules m
  rw [known, Option.map_some] at known'
  have same : program interpreter now m = program interpreter r m := by
    unfold program
    rw [known', known]
  rw [execute_apply known' held, same]

/-- A linked module that waits can be begun. -/
theorem exists_begins {done : List ModuleId} (here : r.At traversal e ⟨path, done, []⟩ now)
    (sound : Stage.Sound r ⟨path, done, []⟩) (linked : r.Linked m) (known : now.get? m = some i)
    (waiting : i.progress = .notStarted) : ∃ begun, now.Begins traversal m i begun := by
  obtain ⟨c, place⟩ := (linkage.placed m).mp linked
  obtain ⟨component, there, member⟩ := (linkage.grouped.members m c).mp place
  have shown : now.progressOf? m = some .notStarted :=
    Registry.progressOf?_eq_some_iff.mpr ⟨i, known, waiting⟩
  obtain ⟨waited, _, undone, _⟩ := (here.notStarted_iff sound).mp shown
  have free := (settled.untouched there member waited).1
  have place' : i.component = some c := by
    rw [← here.sameModules.componentOf?] at place
    simpa [Registry.componentOf?, known] using place
  have there' := here.components c
  rw [there, Option.map_some] at there'
  rcases claim_waiting linkage sound there place undone free with ⟨_, claim⟩ | ⟨_, claim⟩
  · exact ⟨_, .inner known place' there' claim waiting⟩
  · exact ⟨_, .root known place' there' claim⟩

/-- A visit that fails has a first failure below it. -/
theorem exists_failsAt {after : Machine κ σ} (descends : r.Descends traversal path seen now)
    (linked : r.Linked m) (led : ∀ top ∈ path.head?, r.DependsOn top m)
    (deep : r.size < depth + path.length)
    (fails : visit interpreter traversal depth m ⟨now, w⟩ = (some (.error e), after)) :
    ∃ suffix moment, FailsAt interpreter traversal depth m ⟨now, w⟩ suffix moment e := by
  induction depth generalizing m path seen now w after with
  | zero => cases fails
  | succ depth ih =>
    obtain ⟨e', done, here, sound, seen_iff⟩ := descends.under
    obtain ⟨i, known, _⟩ := here.sameModules.linked_iff.mpr linked
    by_cases waiting : i.progress = .notStarted
    · obtain ⟨begun, begins⟩ := exists_begins linkage settled here sound linked known waiting
      obtain ⟨_, below, descends'⟩ := descends_begins linkage settled descends begins led
      have deep' : r.size < depth + (m :: path).length := deep_below m deep
      rcases ran : (do i.targets.forM (visit interpreter traversal depth); execute interpreter m :
        Run (Machine κ σ) Unit) ⟨begun, w⟩ with ⟨outcome, last⟩
      obtain ⟨root, ended⟩ := visit_begins linkage settled here begins ran
      cases fails.symm.trans ended
      have outcome := congrArg Prod.fst ran
      rw [Run.bind_apply] at outcome
      rcases visited : i.targets.forM (visit interpreter traversal depth) ⟨begun, w⟩ with
        ⟨_ | _ | _, between⟩ <;> rw [visited] at outcome
      · cases outcome
      · cases outcome
        obtain ⟨first, target, rest, before, parts, ready, last⟩ := Run.forM_eq_error.mp visited
        rw [parts] at below
        obtain ⟨seen', descends''⟩ := descends_visits linkage settled descends' deep'
          (fun x held => below x (List.mem_append_left _ held)) ready
        obtain ⟨linkedTarget, ledTarget⟩ := below target (by simp)
        obtain ⟨suffix, moment, failsAt⟩ := ih descends'' linkedTarget ledTarget deep' last
        exact ⟨_, moment, .deeper begins parts ready failsAt⟩
      · rcases ran : execute interpreter m between with ⟨_ | _ | _, moment⟩ <;> simp only [ran] at outcome
        · cases outcome
        · cases outcome
          exact ⟨_, moment, .own begins visited ran⟩
        · cases outcome
    · rw [visit_begun linkage settled here linked known waiting] at fails
      split at fails
      · rename_i failed
        cases fails
        exact ⟨[], ⟨now, w⟩, .recorded known failed⟩
      · cases fails

/-- The failure is carried up through all modules that were begun, and the visit ends
with it. -/
theorem FailsAt.climbs {machine moment : Machine κ σ} {suffix : List ModuleId}
    (fails : FailsAt interpreter traversal depth m machine suffix moment e)
    (descends : r.Descends traversal path seen machine.registry) (linked : r.Linked m)
    (led : ∀ top ∈ path.head?, r.DependsOn top m) (deep : r.size < depth + path.length) :
    ∃ later, visit interpreter traversal depth m machine = (some (.error e), later) ∧
      r.Climbs traversal e m suffix path moment.registry later.registry := by
  induction fails generalizing path seen with
  | @recorded depth m machine i e known failed =>
    obtain ⟨⟨e', done, here, sound, seen_iff⟩, news, events, told⟩ := descends
    have before : r.progressOf? m = some (.errored e) :=
      here.errored_before sound (Registry.progressOf?_eq_some_iff.mpr ⟨i, known, failed⟩)
    refine ⟨machine, ?_, ⟨done, [], .start here.rename sound, news, events,
      fun x late => (seen_iff _).mp (told x late)⟩, .nil, .inr ⟨rfl, before⟩,
      .inr ⟨m, before, by simp⟩⟩
    exact (visit_begun linkage settled here linked known (by simp [failed])).trans (by rw [failed])
  | @own depth m machine below moment i begun e begins ready fails =>
    obtain ⟨e', done, start, _, _⟩ := descends.under
    obtain ⟨_, targets, descends'⟩ := descends_begins linkage settled descends begins led
    have deep' : r.size < depth + (m :: path).length := deep_below m deep
    obtain ⟨seen', ⟨e'', done', here, sound, seen_iff⟩, news, events, told⟩ :=
      descends_visits linkage settled descends' deep' targets ready
    have moved : (execute interpreter m ⟨below.registry, below.world⟩).2.registry =
        below.registry.enter m := by rw [execute_at here linked]
    rw [show execute interpreter m ⟨below.registry, below.world⟩ = _ from fails] at moved
    have ended : r.At traversal e ⟨m :: path, done', []⟩ moment.registry := by
      rw [moved]
      exact ⟨here.rename.modules, here.components⟩
    have body : (do i.targets.forM (visit interpreter traversal depth); execute interpreter m :
        Run (Machine κ σ) Unit) ⟨begun, machine.world⟩ = (some (.error e), moment) := by
      rw [Run.bind_apply, ready]
      exact fails
    obtain ⟨later, doomed, visited, gives⟩ :=
      visit_fails linkage settled start.rename begins body ended sound
    have told' : moment.registry.entered.events =
        ⟨m, below.registry.instances⟩ :: below.registry.entered.events := by
      rw [moved]
      exact Chronicle.events_add _ _
    have spread := (Registry.Spread.start ended sound).extend gives
    refine ⟨later, visited, ⟨done', doomed, spread, ⟨m, below.registry.instances⟩ :: news,
      by rw [told', events]; rfl, fun x late => ?_⟩, .singleton m, .inl rfl, .inl ⟨_, _, told', rfl⟩⟩
    rcases List.mem_cons.mp late with rfl | early
    · exact .inl List.mem_cons_self
    · exact (seen_iff _).mp (told x early)
  | @deeper depth m target machine between moment i begun first rest suffix e begins parts ready _ ih =>
    obtain ⟨e', done, start, _, _⟩ := descends.under
    obtain ⟨_, targets, descends'⟩ := descends_begins linkage settled descends begins led
    rw [parts] at targets
    have deep' : r.size < depth + (m :: path).length := deep_below m deep
    obtain ⟨seen', descends''⟩ := descends_visits linkage settled descends' deep'
      (fun x held => targets x (List.mem_append_left _ held)) ready
    obtain ⟨linkedTarget, ledTarget⟩ := targets target (by simp)
    have depends : r.DependsOn m target := ledTarget m rfl
    obtain ⟨below, last, ⟨done', doomed, spread, news, events, told⟩, way, bottom, cause⟩ :=
      ih descends'' linkedTarget ledTarget deep'
    have body : (do i.targets.forM (visit interpreter traversal depth); execute interpreter m :
        Run (Machine κ σ) Unit) ⟨begun, machine.world⟩ = (some (.error e), below) := by
      rw [Run.bind_apply, Run.forM_eq_error.mpr ⟨first, target, rest, between, parts, ready, last⟩]
    obtain ⟨later, doomed', visited, gives⟩ :=
      visit_fails linkage settled start.rename begins body spread.up spread.sound
    have whole : (suffix ++ [m]) ++ path = suffix ++ m :: path := by simp
    refine ⟨later, visited, ⟨done', doomed', spread.extend gives, news, events, by rwa [whole]⟩, ?_,
      by simp, ?_⟩
    · refine List.isChain_append.mpr ⟨way, .singleton m, fun x final y only => ?_⟩
      cases only
      rcases bottom with ends | ⟨rfl, _⟩
      · cases ends.symm.trans final
        exact depends
      · cases final
    · rcases bottom with ends | ⟨rfl, failed⟩
      · have top : (suffix ++ [m]).head? = suffix.head? := by
          cases suffix with
          | nil => cases ends
          | cons _ _ => rfl
        rwa [top]
      · exact .inr ⟨target, failed, fun top first => by cases first; exact depends⟩

end Steps
end Machine
end MixedModules
