import MixedModules.Proofs.Concurrency.Guards

/-! How one of several traversals stands.

The modules that a traversal has begun are in progress, in components that it holds, and it
has visited what they depend on but for the rest. As long as it does not fail, what it has
completed depends, within a component that it holds, on modules that are completed or in
progress. -/
namespace MixedModules
open Relation

namespace Phase

/-- The module that is visited. -/
def module : Phase → ModuleId
  | arriving m => m
  | meeting m => m
  | looking m _ => m
  | beginning m _ _ => m
  | visiting f => f.module
  | running f => f.module
  | ending f _ => f.module
  | sweeping m _ _ => m
  | releasing m _ _ => m
  | leaving m _ => m

/-- The module, while it is in progress for the traversal. -/
def frame? : Phase → Option Frame
  | visiting f => some f
  | running f => some f
  | ending f _ => some f
  | _ => none

/-- The component that is held for the module when it is not begun yet, or recorded already. -/
def Takes : Phase → ComponentId → Prop
  | beginning _ c true, x => c = x
  | sweeping _ c _, x => c = x
  | releasing _ c _, x => c = x
  | _, _ => False

/-- The visit fails. -/
def Fails : Phase → Prop
  | ending _ (.error _) => True
  | sweeping .. => True
  | releasing _ _ (.error _) => True
  | leaving _ (.error _) => True
  | _ => False

end Phase

namespace Walk

/-- The modules in progress, the latest first. -/
def frames (w : Walk) : List Frame := w.phase.frame?.toList ++ w.below

/-- Those of them that were not entered. -/
def waiting : Walk → List Frame
  | ⟨.visiting f, below⟩ => f :: below
  | ⟨_, below⟩ => below

theorem waiting_subset (w : Walk) {f : Frame} (member : f ∈ w.waiting) : f ∈ w.frames := by
  rcases w with ⟨phase, below⟩
  cases phase <;> first | exact member | exact List.mem_cons_of_mem _ member

/-- The components that the traversal holds: it has got each of them for one module. -/
def Takes (w : Walk) (c : ComponentId) : Prop :=
  w.phase.Takes c ∨ ∃ f ∈ w.frames, f.root = true ∧ f.component = c

end Walk

namespace Frame

variable (f : Frame) (outcome : Except EvalError Unit) (below : List Frame)

theorem frames_close : Walk.frames ⟨f.close outcome, below⟩ = below := by
  rcases f with ⟨m, c, root, rest⟩
  cases root <;> cases outcome <;> rfl

theorem waiting_close : Walk.waiting ⟨f.close outcome, below⟩ = below := by
  rcases f with ⟨m, c, root, rest⟩
  cases root <;> cases outcome <;> rfl

theorem module_close : (f.close outcome).module = f.module := by
  rcases f with ⟨m, c, root, rest⟩
  cases root <;> cases outcome <;> rfl

theorem takes_close (c : ComponentId) :
    (f.close outcome).Takes c ↔ f.root = true ∧ f.component = c := by
  rcases f with ⟨m, c, root, rest⟩
  cases root <;> cases outcome <;> simp [close, Phase.Takes]

/-- A visit fails when a module does. -/
theorem fails_close : (f.close outcome).Fails ↔ outcome ≠ .ok () := by
  rcases f with ⟨m, c, root, rest⟩
  cases root <;> cases outcome <;> simp [close, Phase.Fails]

end Frame

/-- Each module waits for the one before it, the first of them for `m`. -/
def Frame.Await : List Frame → ModuleId → Prop
  | [], _ => True
  | f :: below, m => f.rest.head? = some m ∧ Frame.Await below f.module

variable {κ : Type}

/-- What holds of the module that is visited, above the modules that wait for it. -/
def Phase.Fits (r : Registry κ) (t : Nat) (below : List Frame) : Phase → Prop
  | arriving _ => True
  | meeting m => r.claimOf? m = some .released
  | looking m c => r.componentOf? m = some c ∧ r.claim? c = some (.held t)
  | beginning m c root => r.componentOf? m = some c ∧ r.claim? c = some (.held t) ∧
      r.progressOf? m = some .notStarted ∧ (root = true → ∀ f ∈ below, f.component ≠ c)
  | visiting _ => True
  | running f => f.rest = []
  | ending f outcome => outcome = .ok () → f.rest = []
  | sweeping m c _ => r.componentOf? m = some c ∧ r.claim? c = some (.held t) ∧
      ∀ f ∈ below, f.component ≠ c
  | releasing m c _ => r.componentOf? m = some c ∧ r.claim? c = some (.held t) ∧
      (∀ f ∈ below, f.component ≠ c) ∧ ∀ x, r.componentOf? x = some c → r.Over x
  | leaving m outcome => outcome = .ok () → ∀ f ∈ below.head?, r.Settles f.component m

/-- How the traversal with the number `t` stands. -/
structure Walk.Fits (r : Registry κ) (t : Nat) (w : Walk) : Prop where
  claims : ∀ c, r.claim? c = some (.held t) ↔ w.Takes c
  placed : ∀ f ∈ w.frames, r.componentOf? f.module = some f.component
  held : ∀ f ∈ w.frames, r.claim? f.component = some (.held t)
  begun : ∀ f ∈ w.frames, r.progressOf? f.module = some .inProgress
  /-- Nothing else of what it holds is in progress. -/
  stacked : ∀ m, r.Holds t m → r.progressOf? m = some .inProgress → ∃ f ∈ w.frames, f.module = m
  once : (w.frames.map (·.module)).Nodup
  /-- The module by which a component was reached comes below all others of the component. -/
  roots : w.frames.Pairwise fun above below => above.root = true → below.component ≠ above.component
  asks : ∀ f ∈ w.frames, ∀ target ∈ f.rest, r.DependsOn f.module target
  awaits : Frame.Await w.below w.phase.module
  unentered : ∀ f ∈ w.waiting, ∀ x ∈ r.entered.events, x.module ≠ f.module
  phase : w.phase.Fits r t w.below
  /-- What is completed depends on nothing of its component that is still to be begun. -/
  closed : ¬ w.phase.Fails → ∀ c, r.claim? c = some (.held t) → ∀ m, r.componentOf? m = some c →
    r.progressOf? m = some .completed → ∀ target, r.DependsOn m target → r.Settles c target
  /-- What is in progress depends, but for the rest, on nothing that is still to be begun. -/
  covered : ¬ w.phase.Fails → ∀ f ∈ w.frames, ∀ target, r.DependsOn f.module target →
    target ∈ f.rest ∨ r.Settles f.component target

namespace Walk.Fits

variable {r r' : Registry κ} {t : Nat} {w w' : Walk} {m : ModuleId} {c : ComponentId} {f : Frame}
  {below : List Frame}

/-- A traversal that has just started. -/
theorem start (unclaimed : ∀ c, r.claim? c ≠ some (.held t)) (entry : ModuleId) :
    Fits r t ⟨.arriving entry, []⟩ where
  claims c :=
    ⟨fun held => absurd held (unclaimed c), by simp [Takes, Phase.Takes, frames, Phase.frame?]⟩
  placed f member := by cases member
  held f member := by cases member
  begun f member := by cases member
  stacked m holds := by
    obtain ⟨c, _, held⟩ := Registry.claimOf?_eq_some_iff.mp holds
    exact absurd held (unclaimed c)
  once := List.nodup_nil
  roots := .nil
  asks f member := by cases member
  awaits := trivial
  unentered f member := by cases member
  phase := trivial
  closed _ c held := absurd held (unclaimed c)
  covered _ f member := by cases member

section Guarded

variable {other : Nat} (guards : Registry.Guards other r r') (apart : t ≠ other)

include guards apart

theorem guarded_phase {phase : Phase} (fits : phase.Fits r t below)
    (held : ∀ f ∈ below, r.claim? f.component = some (.held t)) : phase.Fits r' t below := by
  have place : ∀ m, r'.componentOf? m = r.componentOf? m := fun m => guards.same.componentOf?
  cases phase with
  | arriving m => trivial
  | meeting m => exact guards.claimOf?_released fits
  | looking m c =>
    obtain ⟨inside, claim⟩ := fits
    exact ⟨(place m).trans inside, (guards.held_iff apart).mpr claim⟩
  | beginning m c root =>
    obtain ⟨inside, claim, waits, first⟩ := fits
    exact ⟨(place m).trans inside, (guards.held_iff apart).mpr claim,
      (guards.kept apart claim inside).trans waits, first⟩
  | visiting f => trivial
  | running f => exact fits
  | ending f outcome => exact fits
  | sweeping m c e =>
    obtain ⟨inside, claim, first⟩ := fits
    exact ⟨(place m).trans inside, (guards.held_iff apart).mpr claim, first⟩
  | releasing m c outcome =>
    obtain ⟨inside, claim, first, ended⟩ := fits
    refine ⟨(place m).trans inside, (guards.held_iff apart).mpr claim, first, fun x shares => ?_⟩
    rw [place] at shares
    unfold Registry.Over
    rw [guards.kept apart claim shares]
    exact ended x shares
  | leaving m outcome =>
    intro well f member
    exact guards.settles apart (held f (List.mem_of_mem_head? member)) (fits well f member)

/-- What another traversal does leaves a traversal as it stands. -/
theorem guarded (fits : w.Fits r t) : w.Fits r' t where
  claims c := (guards.held_iff apart).trans (fits.claims c)
  placed f member := guards.same.componentOf?.trans (fits.placed f member)
  held f member := (guards.held_iff apart).mpr (fits.held f member)
  begun f member := by
    rw [guards.kept apart (fits.held f member) (fits.placed f member)]
    exact fits.begun f member
  stacked m holds running := by
    obtain ⟨c, place, held⟩ := Registry.claimOf?_eq_some_iff.mp holds
    rw [guards.same.componentOf?] at place
    have held := (guards.held_iff apart).mp held
    rw [guards.kept apart held place] at running
    exact fits.stacked m ((Registry.holds_iff place).mpr held) running
  once := fits.once
  roots := fits.roots
  asks f member target inside := guards.same.dependsOn_iff.mpr (fits.asks f member target inside)
  awaits := fits.awaits
  unentered f member := by
    have inside := w.waiting_subset member
    exact guards.fresh apart (fits.held f inside) (fits.placed f inside) (fits.unentered f member)
  phase := guarded_phase guards apart fits.phase fun f member =>
    fits.held f (List.mem_append_right _ member)
  closed sound c held m place completed target depends := by
    rw [guards.same.componentOf?] at place
    rw [guards.same.dependsOn_iff] at depends
    have held := (guards.held_iff apart).mp held
    rw [guards.kept apart held place] at completed
    exact guards.settles apart held (fits.closed sound c held m place completed target depends)
  covered sound f member target depends := by
    rw [guards.same.dependsOn_iff] at depends
    exact (fits.covered sound f member target depends).imp_right
      (guards.settles apart (fits.held f member))

end Guarded

/-! ## Steps -/

/-- A step that changes nothing but the phase. -/
theorem pass (fits : w.Fits r t) (frames : w'.frames = w.frames)
    (takes : ∀ c, w'.phase.Takes c ↔ w.phase.Takes c) (waiting : ∀ f ∈ w'.waiting, f ∈ w.waiting)
    (awaits : Frame.Await w'.below w'.phase.module) (phase : w'.phase.Fits r t w'.below)
    (sound : ¬ w'.phase.Fails → ¬ w.phase.Fails) : w'.Fits r t where
  claims c := by rw [fits.claims, Takes, Takes, frames, takes]
  placed := frames ▸ fits.placed
  held := frames ▸ fits.held
  begun := frames ▸ fits.begun
  stacked := frames ▸ fits.stacked
  once := frames ▸ fits.once
  roots := frames ▸ fits.roots
  asks := frames ▸ fits.asks
  awaits := awaits
  unentered f member := fits.unentered f (waiting f member)
  phase := phase
  closed well := fits.closed (sound well)
  covered well := frames ▸ fits.covered (sound well)

/-- A component that is free is taken for one of its members. -/
theorem acquire {component : Component} (fits : Fits r t ⟨.arriving m, below⟩)
    (place : r.componentOf? m = some c) (there : r.component? c = some component)
    (free : component.claim = .free)
    (vacant : ∀ x, r.componentOf? x = some c → r.progressOf? x = some .notStarted) :
    Fits (r.setComponent c { component with claim := .held t }) t ⟨.beginning m c true, below⟩ := by
  have claim : r.claim? c = some .free := by rw [Registry.claim?, there, Option.map_some, free]
  have claims := Registry.claim?_setComponent there (.held t)
  have kept : ∀ c', r.claim? c' = some (.held t) →
      (r.setComponent c { component with claim := .held t }).claim? c' = some (.held t) := by
    intro c' held
    rw [claims]
    split
    · rfl
    · exact held
  -- A component that is held now is the one that was taken, or was held before.
  have before : ∀ c', (r.setComponent c { component with claim := .held t }).claim? c' =
      some (.held t) → c = c' ∨ r.claim? c' = some (.held t) := by
    intro c' held
    rw [claims] at held
    split at held
    · next same => exact .inl same
    · exact .inr held
  constructor
  case claims =>
    refine fun c' => ⟨fun held => ?_, fun takes => ?_⟩
    · rcases before c' held with same | held
      · exact .inl same
      · exact ((fits.claims c').mp held).imp_left False.elim
    · rcases takes with same | rest
      · have same : c = c' := same
        rw [claims, if_pos same]
      · exact kept c' ((fits.claims c').mpr (.inr rest))
  case placed => exact fits.placed
  case held => exact fun f member => kept _ (fits.held f member)
  case begun => exact fits.begun
  case stacked =>
    intro x holds running
    obtain ⟨c', inside, held⟩ := Registry.claimOf?_eq_some_iff.mp holds
    have inside : r.componentOf? x = some c' := inside
    rcases before c' held with rfl | held
    · cases (vacant x inside).symm.trans running
    · exact fits.stacked x ((Registry.holds_iff inside).mpr held) running
  case once => exact fits.once
  case roots => exact fits.roots
  case asks => exact fits.asks
  case awaits => exact fits.awaits
  case unentered => exact fits.unentered
  case phase =>
    refine ⟨place, by rw [claims, if_pos rfl], vacant m place, fun _ f member same => ?_⟩
    have held := fits.held f member
    rw [same, claim] at held
    cases held
  case closed =>
    intro _ c' held x inside completed target depends
    rcases before c' held with rfl | held
    · cases (vacant x inside).symm.trans completed
    · exact fits.closed id c' held x inside completed target depends
  case covered => exact fits.covered

/-- A module is begun that waits. -/
theorem begin {i : Instance κ} {root : Bool} (fits : Fits r t ⟨.beginning m c root, below⟩)
    (known : r.get? m = some i) (fresh : ∀ x ∈ r.entered.events, x.module ≠ m) :
    Fits (r.setProgress m .inProgress) t ⟨.visiting ⟨m, c, root, i.targets⟩, below⟩ := by
  obtain ⟨place, held, waits, first⟩ := fits.phase
  have same := Registry.sameModules_setProgress r m .inProgress
  have progress := Registry.progressOf?_setProgress r m .inProgress
  have now : (r.setProgress m .inProgress).progressOf? m = some .inProgress := by
    rw [progress, if_pos rfl, waits, Option.map_some]
  have other : ∀ f ∈ below, m ≠ f.module := fun f member same => by
    have running := fits.begun f member
    rw [← same, waits] at running
    cases running
  constructor
  case claims =>
    intro c'
    change r.claim? c' = _ ↔ _
    rw [fits.claims]
    cases root <;> simp [Takes, frames, Phase.Takes, Phase.frame?]
  case placed =>
    refine List.forall_mem_cons.mpr ⟨same.componentOf?.trans place, fun f member => ?_⟩
    exact same.componentOf?.trans (fits.placed f member)
  case held => exact List.forall_mem_cons.mpr ⟨held, fits.held⟩
  case begun =>
    refine List.forall_mem_cons.mpr ⟨now, fun f member => ?_⟩
    rw [progress, if_neg (other f member)]
    exact fits.begun f member
  case stacked =>
    intro x holds running
    by_cases this : m = x
    · exact ⟨_, List.mem_cons_self, this⟩
    · rw [progress, if_neg this] at running
      obtain ⟨c', inside, held⟩ := Registry.claimOf?_eq_some_iff.mp holds
      rw [same.componentOf?] at inside
      obtain ⟨f, member, rfl⟩ := fits.stacked x ((Registry.holds_iff inside).mpr held) running
      exact ⟨f, List.mem_cons_of_mem _ member, rfl⟩
  case once =>
    refine List.nodup_cons.mpr ⟨fun inside => ?_, fits.once⟩
    obtain ⟨f, member, same⟩ := List.mem_map.mp inside
    exact other f member same.symm
  case roots =>
    exact List.pairwise_cons.mpr ⟨fun f member isRoot => first isRoot f member, fits.roots⟩
  case asks =>
    refine List.forall_mem_cons.mpr ⟨fun target inside => ?_, fun f member target inside => ?_⟩
    · exact same.dependsOn_iff.mpr ⟨i, known, inside⟩
    · exact same.dependsOn_iff.mpr (fits.asks f member target inside)
  case awaits => exact fits.awaits
  case unentered => exact List.forall_mem_cons.mpr ⟨fresh, fits.unentered⟩
  case phase => trivial
  case closed =>
    intro _ c' held x inside completed target depends
    rw [same.componentOf?] at inside
    rw [same.dependsOn_iff] at depends
    have before : r.progressOf? x = some .completed := by
      rw [progress] at completed
      split at completed
      · next this =>
        rw [← this, waits] at completed
        cases completed
      · exact completed
    exact (fits.closed id c' held x inside before target depends).setProgress (.inr rfl)
  case covered =>
    refine fun _ => List.forall_mem_cons.mpr
      ⟨fun target depends => ?_, fun f member target depends => ?_⟩
    · rw [same.dependsOn_iff] at depends
      obtain ⟨j, known', inside⟩ := depends
      cases known.symm.trans known'
      exact .inl inside
    · rw [same.dependsOn_iff] at depends
      exact (fits.covered id f member target depends).imp_right (·.setProgress (.inr rfl))

/-- The module is entered when nothing is left that it depends on. -/
theorem enter (fits : Fits r t ⟨.visiting f, below⟩) (spent : f.rest = []) :
    Fits (r.enter f.module) t ⟨.running f, below⟩ := by
  have same := Registry.sameModules_enter r f.module
  constructor
  case claims => exact fits.claims
  case placed => exact fits.placed
  case held => exact fits.held
  case begun => exact fits.begun
  case stacked => exact fits.stacked
  case once => exact fits.once
  case roots => exact fits.roots
  case asks => exact fits.asks
  case awaits => exact fits.awaits
  case unentered =>
    intro g member x told
    rw [Registry.enter, Chronicle.events_add] at told
    rcases List.mem_cons.mp told with rfl | told
    · exact fun same => (List.nodup_cons.mp fits.once).1 (List.mem_map.mpr ⟨g, member, same.symm⟩)
    · exact fits.unentered g (List.mem_cons_of_mem _ member) x told
  case phase => exact spent
  case closed => exact fits.closed
  case covered => exact fits.covered

section Record

variable {outcome : Except EvalError Unit} {progress : Progress}

/-- When the outcome of a module is recorded, the modules below it are in progress, and no
others. -/
theorem stacked_record (fits : Fits r t ⟨.ending f outcome, below⟩) (ends : progress ≠ .inProgress)
    {x : ModuleId} (holds : r.Holds t x)
    (running : (r.setProgress f.module progress).progressOf? x = some .inProgress) :
    ∃ g ∈ below, g.module = x := by
  rw [Registry.progressOf?_setProgress] at running
  split at running
  · next this =>
    obtain ⟨_, _, same⟩ := Option.map_eq_some_iff.mp running
    exact absurd same ends
  · next this =>
    obtain ⟨g, member, rfl⟩ := fits.stacked x holds running
    exact ⟨g, (List.mem_cons.mp member).resolve_left fun same => this (same ▸ rfl), rfl⟩

/-- What a module depends on that is completed now is completed or in progress, if the two are
in one component. -/
theorem closed_record (fits : Fits r t ⟨.ending f (.ok ()), below⟩) {x target : ModuleId}
    (held : r.claim? c = some (.held t)) (inside : r.componentOf? x = some c)
    (completed : (r.setProgress f.module .completed).progressOf? x = some .completed)
    (depends : r.DependsOn x target) : (r.setProgress f.module .completed).Settles c target := by
  refine Registry.Settles.setProgress ?_ (.inl rfl)
  by_cases this : f.module = x
  · subst this
    cases (fits.placed f List.mem_cons_self).symm.trans inside
    have spent : f.rest = [] := fits.phase rfl
    rcases fits.covered id f List.mem_cons_self target depends with left | settles
    · rw [spent] at left
      cases left
    · exact settles
  · rw [Registry.progressOf?_setProgress, if_neg this] at completed
    exact fits.closed id c held x inside completed target depends

/-- When the module by which a component was reached is completed, nothing of the component is in
progress any more, so all of it is completed. -/
theorem completed_record (fits : Fits r t ⟨.ending f (.ok ()), below⟩) (linkage : r.Linkage)
    (root : f.root = true) {x : ModuleId} (inside : r.componentOf? x = some f.component) :
    (r.setProgress f.module .completed).progressOf? x = some .completed := by
  have place := fits.placed f List.mem_cons_self
  have held := fits.held f List.mem_cons_self
  refine linkage.spread (P := fun x => r.componentOf? x = some f.component ∧
    (r.setProgress f.module .completed).progressOf? x = some .completed) place ⟨place, ?_⟩
    (fun x target ⟨inside, completed⟩ depends shares => ⟨shares, ?_⟩) x inside |>.2
  · rw [Registry.progressOf?_setProgress, if_pos rfl, fits.begun f List.mem_cons_self,
      Option.map_some]
  · have same := Registry.sameModules_setProgress r f.module .completed
    rcases fits.closed_record held inside completed depends (same.componentOf?.trans shares)
      with completed | running
    · exact completed
    · obtain ⟨g, member, rfl⟩ :=
        fits.stacked_record (by simp) ((Registry.holds_iff shares).mpr held) running
      have apart := (List.pairwise_cons.mp fits.roots).1 g member root
      have there := fits.placed g (List.mem_cons_of_mem _ member)
      exact absurd (Option.some.inj (there.symm.trans shares)) apart

/-- The outcome of a module is recorded. -/
theorem record (fits : Fits r t ⟨.ending f outcome, below⟩) (linkage : r.Linkage) :
    Fits (r.setProgress f.module (.after outcome)) t ⟨f.close outcome, below⟩ := by
  have ends : Progress.after outcome ≠ .inProgress := by cases outcome <;> simp [Progress.after]
  have same := Registry.sameModules_setProgress r f.module (.after outcome)
  obtain ⟨apart, once⟩ := List.nodup_cons.mp fits.once
  obtain ⟨first, roots⟩ := List.pairwise_cons.mp fits.roots
  have place := fits.placed f List.mem_cons_self
  have held := fits.held f List.mem_cons_self
  constructor
  case claims =>
    intro c
    change r.claim? c = _ ↔ _
    rw [fits.claims, Takes, Takes, f.takes_close, f.frames_close]
    simp [Walk.frames, Phase.Takes, Phase.frame?]
  case placed =>
    rw [f.frames_close]
    exact fun g member => same.componentOf?.trans (fits.placed g (List.mem_cons_of_mem _ member))
  case held =>
    rw [f.frames_close]
    exact fun g member => fits.held g (List.mem_cons_of_mem _ member)
  case begun =>
    rw [f.frames_close]
    intro g member
    have other : f.module ≠ g.module := fun same =>
      apart (List.mem_map.mpr ⟨g, member, same.symm⟩)
    rw [Registry.progressOf?_setProgress, if_neg other]
    exact fits.begun g (List.mem_cons_of_mem _ member)
  case stacked =>
    rw [f.frames_close]
    intro x holds running
    obtain ⟨c, inside, held⟩ := Registry.claimOf?_eq_some_iff.mp holds
    rw [same.componentOf?] at inside
    exact fits.stacked_record ends ((Registry.holds_iff inside).mpr held) running
  case once =>
    rw [f.frames_close]
    exact once
  case roots =>
    rw [f.frames_close]
    exact roots
  case asks =>
    rw [f.frames_close]
    exact fun g member target inside =>
      same.dependsOn_iff.mpr (fits.asks g (List.mem_cons_of_mem _ member) target inside)
  case awaits =>
    rw [f.module_close]
    exact fits.awaits
  case unentered =>
    rw [f.waiting_close]
    exact fits.unentered
  case phase =>
    cases outcome with
    | error e =>
      unfold Frame.close
      cases root : f.root with
      | false => exact fun ill => by cases ill
      | true => exact ⟨same.componentOf?.trans place, held, fun g member => first g member root⟩
    | ok _ =>
      unfold Frame.close
      cases root : f.root with
      | false =>
        refine fun _ g _ _ => .inl ?_
        rw [Registry.progressOf?_setProgress, if_pos rfl,
          fits.begun f List.mem_cons_self, Option.map_some]
        rfl
      | true =>
        refine ⟨same.componentOf?.trans place, held, fun g member => first g member root,
          fun x inside => .inl ?_⟩
        rw [same.componentOf?] at inside
        exact fits.completed_record linkage root inside
  case closed =>
    intro sound c held x inside completed target depends
    rw [f.fails_close, not_not] at sound
    subst sound
    rw [same.componentOf?] at inside
    rw [same.dependsOn_iff] at depends
    exact fits.closed_record held inside completed depends
  case covered =>
    rw [f.frames_close, f.fails_close, not_not]
    rintro rfl g member target depends
    rw [same.dependsOn_iff] at depends
    exact (fits.covered id g (List.mem_cons_of_mem _ member) target depends).imp_right
      (·.setProgress (.inl rfl))

end Record

/-- The failure of a component is recorded for all members. -/
theorem sweep {e : EvalError} (fits : Fits r t ⟨.sweeping m c e, below⟩) (linkage : r.Linkage) :
    Fits (r.sweep c e) t ⟨.releasing m c (.error e), below⟩ := by
  obtain ⟨place, held, first⟩ := fits.phase
  have same := Registry.sameModules_sweep r c e
  have change := Registry.progressOf?_sweep linkage c e
  have claim := Registry.claim?_sweep r c e
  constructor
  case claims => exact fun c' => by rw [claim]; exact fits.claims c'
  case placed => exact fun f member => same.componentOf?.trans (fits.placed f member)
  case held => exact fun f member => by rw [claim]; exact fits.held f member
  case begun =>
    intro f member
    have outside : r.componentOf? f.module ≠ some c := fun inside =>
      first f member (Option.some.inj ((fits.placed f member).symm.trans inside))
    rw [change, if_neg outside]
    exact fits.begun f member
  case stacked =>
    intro x holds running
    obtain ⟨c', inside, held⟩ := Registry.claimOf?_eq_some_iff.mp holds
    rw [same.componentOf?] at inside
    rw [claim] at held
    refine fits.stacked x ((Registry.holds_iff inside).mpr held) ?_
    rw [change] at running
    split at running
    · obtain ⟨before, now, ends⟩ := Option.map_eq_some_iff.mp running
      split at ends
      · rw [now, ends]
      · cases ends
    · exact running
  case once => exact fits.once
  case roots => exact fits.roots
  case asks => exact fun f member target inside =>
    same.dependsOn_iff.mpr (fits.asks f member target inside)
  case awaits => exact fits.awaits
  case unentered =>
    rw [Registry.entered_sweep]
    exact fits.unentered
  case phase =>
    refine ⟨same.componentOf?.trans place, (claim c).trans held, first, fun x inside => ?_⟩
    rw [same.componentOf?] at inside
    obtain ⟨i, known, _⟩ := Option.bind_eq_some_iff.mp inside
    unfold Registry.Over
    rw [change, if_pos inside, Registry.progressOf?, known]
    simp only [Option.map_some]
    split
    · next completed => exact .inl (congrArg some completed)
    · exact .inr ⟨e, rfl⟩
  case closed => exact fun sound => absurd trivial sound
  case covered => exact fun sound => absurd trivial sound

/-- A component is released. -/
theorem release {outcome : Except EvalError Unit} (fits : Fits r t ⟨.releasing m c outcome, below⟩) :
    Fits (r.release c) t ⟨.leaving m outcome, below⟩ := by
  obtain ⟨place, held, first, ended⟩ := fits.phase
  have same := Registry.sameModules_release r c
  have change := Registry.progressOf?_release r c
  have claim := Registry.claim?_release held
  -- All other components that were held are held.
  have before : ∀ c', (r.release c).claim? c' = some (.held t) ↔
      c ≠ c' ∧ r.claim? c' = some (.held t) := by
    intro c'
    rw [claim]
    split
    · next this => simp [this]
    · next this => simp [this]
  have sound : ¬ Phase.Fails (.leaving m outcome) → ¬ Phase.Fails (.releasing m c outcome) := by
    cases outcome <;> exact id
  constructor
  case claims =>
    intro c'
    rw [before, fits.claims]
    constructor
    · rintro ⟨other, this | rest⟩
      · exact absurd this other
      · exact .inr rest
    · rintro (none | ⟨f, member, root, rfl⟩)
      · cases none
      · exact ⟨(first f member).symm, .inr ⟨f, member, root, rfl⟩⟩
  case placed => exact fun f member => same.componentOf?.trans (fits.placed f member)
  case held => exact fun f member => (before _).mpr ⟨(first f member).symm, fits.held f member⟩
  case begun => exact fun f member => (change f.module).trans (fits.begun f member)
  case stacked =>
    intro x holds running
    obtain ⟨c', inside, held⟩ := Registry.claimOf?_eq_some_iff.mp holds
    rw [same.componentOf?] at inside
    rw [change] at running
    exact fits.stacked x ((Registry.holds_iff inside).mpr ((before c').mp held).2) running
  case once => exact fits.once
  case roots => exact fits.roots
  case asks => exact fun f member target inside =>
    same.dependsOn_iff.mpr (fits.asks f member target inside)
  case awaits => exact fits.awaits
  case unentered =>
    rw [Registry.entered_release]
    exact fits.unentered
  case phase =>
    intro _ f member inside
    rw [same.componentOf?, place] at inside
    exact absurd (Option.some.inj inside).symm (first f (List.mem_of_mem_head? member))
  case closed =>
    intro well c' held x inside completed target depends shares
    rw [same.componentOf?] at inside shares
    rw [same.dependsOn_iff] at depends
    rw [change] at completed ⊢
    exact fits.closed (sound well) c' ((before c').mp held).2 x inside completed target depends
      shares
  case covered =>
    intro well f member target depends
    rw [same.dependsOn_iff] at depends
    refine (fits.covered (sound well) f member target depends).imp_right fun settles shares => ?_
    rw [same.componentOf?] at shares
    rw [change]
    exact settles shares

/-- A module goes on when the visit is over for which it waits. -/
theorem resume (fits : Fits r t ⟨.leaving m (.ok ()), f :: below⟩) :
    Fits r t ⟨.visiting { f with rest := f.rest.tail }, below⟩ := by
  obtain ⟨next, awaits⟩ := fits.awaits
  obtain ⟨rest, split⟩ := List.head?_eq_some_iff.mp next
  constructor
  case claims =>
    intro c
    rw [fits.claims]
    simp [Takes, Walk.frames, Phase.Takes, Phase.frame?]
  case placed => exact List.forall_mem_cons.mpr (List.forall_mem_cons.mp fits.placed)
  case held => exact List.forall_mem_cons.mpr (List.forall_mem_cons.mp fits.held)
  case begun => exact List.forall_mem_cons.mpr (List.forall_mem_cons.mp fits.begun)
  case stacked =>
    intro x holds running
    obtain ⟨g, member, rfl⟩ := fits.stacked x holds running
    rcases List.mem_cons.mp member with rfl | member
    · exact ⟨_, List.mem_cons_self, rfl⟩
    · exact ⟨g, List.mem_cons_of_mem _ member, rfl⟩
  case once => exact fits.once
  case roots => exact List.pairwise_cons.mpr (List.pairwise_cons.mp fits.roots)
  case asks =>
    obtain ⟨here, others⟩ := List.forall_mem_cons.mp fits.asks
    exact List.forall_mem_cons.mpr
      ⟨fun target inside => here target (List.mem_of_mem_tail inside), others⟩
  case awaits => exact awaits
  case unentered => exact List.forall_mem_cons.mpr (List.forall_mem_cons.mp fits.unentered)
  case phase => trivial
  case closed => exact fun _ => fits.closed id
  case covered =>
    obtain ⟨here, others⟩ := List.forall_mem_cons.mp (fits.covered id)
    refine fun _ => List.forall_mem_cons.mpr ⟨fun target depends => ?_, others⟩
    rcases here target depends with left | settles
    · rw [split] at left
      rcases List.mem_cons.mp left with rfl | left
      · exact .inr (fits.phase rfl f rfl)
      · exact .inl (by rwa [split])
    · exact .inr settles

end Walk.Fits
end MixedModules
