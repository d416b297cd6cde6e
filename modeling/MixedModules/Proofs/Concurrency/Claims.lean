import Mathlib.Data.Finset.Card
import Mathlib.Data.Finset.Range
import MixedModules.Proofs.Concurrency.Alone
import MixedModules.Proofs.Concurrency.Standing
import MixedModules.Proofs.History.Orderly

/-! Claims keep traversals apart, and never in a deadlock.

Whichever traversal takes the next step, each of them stands as it should. So a module is
entered once, and what a component shows when it is released stays for good. A traversal that
holds a component and waits for another one waits for modules on which its own depend. No two
components depend on each other, so traversals do not wait for each other in a circle. -/
namespace MixedModules
open Relation

variable {κ : Type}

/-! ## One step -/

namespace Walk

variable {r r' : Registry κ} {t : Nat} {w w' : Walk}

/-- What a step does to the modules, and how the traversal stands after it. -/
theorem Moves.stands (moves : w.Moves r t w' r') (fits : w.Fits r t) (linkage : r.Linkage)
    (vacant : ∀ m, r.claimOf? m = some .free → r.progressOf? m = some .notStarted)
    (entered : ∀ x ∈ r.entered.events, r.Begun x.module) :
    Registry.Guards t r r' ∧ w'.Fits r' t := by
  cases moves with
  | unknown absent =>
    exact ⟨.refl t r, fits.pass rfl (fun _ => Iff.rfl) (fun _ member => member) fits.awaits
      (fun ill => by cases ill) fun sound => absurd trivial sound⟩
  | unlinked known apart =>
    exact ⟨.refl t r, fits.pass rfl (fun _ => Iff.rfl) (fun _ member => member) fits.awaits
      (fun ill => by cases ill) fun sound => absurd trivial sound⟩
  | missing known place absent =>
    exact ⟨.refl t r, fits.pass rfl (fun _ => Iff.rfl) (fun _ member => member) fits.awaits
      (fun ill => by cases ill) fun sound => absurd trivial sound⟩
  | @acquire m i c component below known place there unblocked =>
    have place : r.componentOf? m = some c := by rw [Registry.componentOf?, known]; exact place
    have claim : r.claim? c = some component.claim := by rw [Registry.claim?, there]; rfl
    rcases component with ⟨members, claim'⟩
    cases claim' with
    | free =>
      refine ⟨.acquire there rfl, fits.acquire place there rfl fun x inside => vacant x ?_⟩
      exact Registry.claimOf?_eq_some_iff.mpr ⟨c, inside, claim⟩
    | held holder =>
      by_cases same : holder = t
      · subst same
        simp only [Component.acquire, if_true, Registry.setComponent_self there]
        exact ⟨.refl holder r, fits.pass rfl (fun _ => Iff.rfl) (fun _ member => member) fits.awaits
          ⟨place, claim⟩ fun _ => id⟩
      · exact absurd (by simp [Component.acquire, same]) unblocked
    | released =>
      simp only [Component.acquire, Registry.setComponent_self there]
      exact ⟨.refl t r, fits.pass rfl (fun _ => Iff.rfl) (fun _ member => member) fits.awaits
        (Registry.claimOf?_eq_some_iff.mpr ⟨c, place, claim⟩) fun _ => id⟩
  | @meet m i below known =>
    refine ⟨.refl t r, fits.pass rfl (fun _ => Iff.rfl) (fun _ member => member) fits.awaits ?_
      fun _ => id⟩
    intro _ f member place
    have released : r.claimOf? m = some .released := fits.phase
    obtain ⟨c, place', claim⟩ := Registry.claimOf?_eq_some_iff.mp released
    cases place.symm.trans place'
    cases (fits.held f (List.mem_of_mem_head? member)).symm.trans claim
  | @look m c i below known begun =>
    refine ⟨.refl t r, fits.pass rfl (fun _ => Iff.rfl) (fun _ member => member) fits.awaits ?_
      fun _ => id⟩
    intro well f _ _
    have progress : r.progressOf? m = some i.progress := by rw [Registry.progressOf?, known]; rfl
    rw [progress]
    cases state : i.progress with
    | notStarted => exact absurd state begun
    | inProgress => exact .inr rfl
    | completed => exact .inl rfl
    | errored e =>
      rw [state] at well
      cases well
  | @join m c i below known waiting =>
    obtain ⟨place, held⟩ := fits.phase
    refine ⟨.refl t r, fits.pass rfl (fun _ => Iff.rfl) (fun _ member => member) fits.awaits
      ⟨place, held, ?_, fun root => by cases root⟩ fun _ => id⟩
    rw [Registry.progressOf?, known, Option.map_some, waiting]
  | @begin m c root i below known =>
    obtain ⟨place, held, waits, _⟩ := fits.phase
    refine ⟨.setProgress ((Registry.holds_iff place).mpr held) (by simp),
      fits.begin known fun x told same => ?_⟩
    obtain ⟨progress, now, begun⟩ := entered x told
    rw [same, waits] at now
    exact begun (Option.some.inj now).symm
  | descend next =>
    exact ⟨.refl t r, fits.pass rfl (fun _ => Iff.rfl) (fun _ member => member)
      ⟨next, fits.awaits⟩ trivial fun _ => id⟩
  | lost | homeless =>
    exact ⟨.refl t r, fits.pass rfl (fun _ => Iff.rfl) (fun _ => List.mem_cons_of_mem _)
      fits.awaits (fun ill => by cases ill) fun sound => absurd trivial sound⟩
  | @enter f i e below spent known home =>
    have holds := (Registry.holds_iff (fits.placed f List.mem_cons_self)).mpr
      (fits.held f List.mem_cons_self)
    have running := fits.begun f List.mem_cons_self
    have fresh := fits.unentered f List.mem_cons_self
    exact ⟨.enter holds ⟨_, running, by simp⟩ fresh, fits.enter spent⟩
  | finish outcome =>
    exact ⟨.refl t r, fits.pass rfl (fun _ => Iff.rfl) (fun _ member => member) fits.awaits
      (fun _ => fits.phase) fun _ => id⟩
  | @record f outcome below =>
    have holds := (Registry.holds_iff (fits.placed f List.mem_cons_self)).mpr
      (fits.held f List.mem_cons_self)
    exact ⟨.setProgress holds (by cases outcome <;> simp [Progress.after]), fits.record linkage⟩
  | sweep =>
    obtain ⟨_, held, _⟩ := fits.phase
    exact ⟨.sweep linkage held, fits.sweep linkage⟩
  | release =>
    obtain ⟨_, held, _, ended⟩ := fits.phase
    exact ⟨.release held ended, fits.release⟩
  | resume => exact ⟨.refl t r, fits.resume⟩
  | fail =>
    exact ⟨.refl t r, fits.pass rfl (fun _ => Iff.rfl) (fun _ => List.mem_cons_of_mem _)
      fits.awaits.2 (fun ill => by cases ill) fun sound => absurd trivial sound⟩

end Walk

namespace Traffic

/-! ## All steps -/

/-- All traversals stand as they should, and components that none of them holds are free and
untouched, or released and over. -/
structure Sound (s : Traffic κ) : Prop where
  linkage : s.registry.Linkage
  vacant : ∀ m, s.registry.claimOf? m = some .free → s.registry.progressOf? m = some .notStarted
  ended : ∀ m, s.registry.claimOf? m = some .released → s.registry.Over m
  entered : s.registry.EnteredOnce
  owned : ∀ c t, s.registry.claim? c = some (.held t) → s.walks t ≠ none
  fits : ∀ t w, s.walks t = some w → w.Fits s.registry t

namespace Sound

variable {s s' : Traffic κ} {t : Nat}

theorem quiet {r : Registry κ} (linkage : r.Linkage) (settled : r.Settled) (once : r.EnteredOnce) :
    (Traffic.quiet r).Sound := by
  have claims : ∀ m x, r.claimOf? m = some x → ∃ c component, r.component? c = some component ∧
      m ∈ component.members ∧ component.claim = x := by
    intro m x claim
    obtain ⟨c, place, claim⟩ := Registry.claimOf?_eq_some_iff.mp claim
    obtain ⟨component, there, same⟩ := Option.map_eq_some_iff.mp claim
    exact ⟨c, component, there, (Registry.At.member_iff linkage there).mpr place, same⟩
  refine ⟨linkage, fun m free => ?_, fun m released => ?_, once, fun c t held => ?_,
    fun t w here => by cases here⟩
  · obtain ⟨c, component, there, member, claim⟩ := claims m _ free
    rcases settled.claims c component there with ⟨_, waiting⟩ | ⟨released, _⟩
    · exact waiting m member
    · cases claim.symm.trans released
  · obtain ⟨c, component, there, member, claim⟩ := claims m _ released
    rcases settled.claims c component there with ⟨free, _⟩ | ⟨_, e, ended⟩
    · cases claim.symm.trans free
    · exact (ended m member).imp_right fun failed => ⟨e, failed⟩
  · obtain ⟨component, there, claim⟩ := Option.map_eq_some_iff.mp held
    rcases settled.claims c component there with ⟨free, _⟩ | ⟨released, _⟩
    · cases claim.symm.trans free
    · cases claim.symm.trans released

/-- What a traversal that stands as it should does to the modules leaves the others as they stand. -/
private theorem guarded (sound : s.Sound) {r' : Registry κ} {w : Walk}
    (guards : Registry.Guards t s.registry r') (fits : w.Fits r' t) :
    Sound ⟨r', Function.update s.walks t (some w)⟩ := by
  have linkage := guards.same.linkage sound.linkage
  have place : ∀ m, r'.componentOf? m = s.registry.componentOf? m :=
    fun m => guards.same.componentOf?
  have keeps : ∀ m, ¬ s.registry.Holds t m → r'.progressOf? m = s.registry.progressOf? m :=
    guards.progress
  refine ⟨linkage, fun m free => ?_, fun m released => ?_, ?_, fun c u held => ?_,
    fun u w' here => ?_⟩
  · obtain ⟨c, inside, claim⟩ := Registry.claimOf?_eq_some_iff.mp free
    rw [place] at inside
    rcases guards.claims c with same | ⟨_, now⟩ | ⟨_, now, _⟩
    · rw [same] at claim
      have free := Registry.claimOf?_eq_some_iff.mpr ⟨c, inside, claim⟩
      rw [keeps m fun holds => by cases holds.symm.trans free]
      exact sound.vacant m free
    · cases now.symm.trans claim
    · cases now.symm.trans claim
  · obtain ⟨c, inside, claim⟩ := Registry.claimOf?_eq_some_iff.mp released
    rw [place] at inside
    rcases guards.claims c with same | ⟨_, now⟩ | ⟨_, _, ended⟩
    · rw [same] at claim
      have released := Registry.claimOf?_eq_some_iff.mpr ⟨c, inside, claim⟩
      unfold Registry.Over
      rw [keeps m fun holds => by cases holds.symm.trans released]
      exact sound.ended m released
    · cases now.symm.trans claim
    · exact ended m inside
  · obtain ⟨distinct, begun⟩ := sound.entered
    unfold Registry.EnteredOnce
    rcases guards.entered with same | ⟨x, added, _, running, fresh⟩
    · rw [same]
      exact ⟨distinct, fun y told => guards.begun _ (begun y told)⟩
    · rw [added, List.map_cons]
      refine ⟨List.nodup_cons.mpr ⟨fun twice => ?_, distinct⟩, List.forall_mem_cons.mpr
        ⟨guards.begun _ running, fun y told => guards.begun _ (begun y told)⟩⟩
      obtain ⟨y, told, same⟩ := List.mem_map.mp twice
      exact fresh y told same
  · by_cases same : u = t
    · subst same
      simp
    · rw [guards.held_iff same] at held
      simpa [Function.update_of_ne same] using sound.owned c u held
  · by_cases same : u = t
    · subst same
      simp only [Function.update_self] at here
      cases here
      exact fits
    · simp only [Function.update_of_ne same] at here
      exact (sound.fits u w' here).guarded guards same

/-- A step leaves all traversals as they should stand. -/
theorem step (sound : s.Sound) (steps : Steps t s s') :
    Registry.Guards t s.registry s'.registry ∧ s'.Sound := by
  cases steps with
  | start entry unused =>
    have unclaimed : ∀ c, s.registry.claim? c ≠ some (.held t) := fun c held =>
      sound.owned c t held unused
    exact ⟨.refl t _, sound.guarded (.refl t _) (.start unclaimed entry)⟩
  | move here moves =>
    obtain ⟨guards, fits⟩ :=
      moves.stands (sound.fits t _ here) sound.linkage sound.vacant sound.entered.2
    exact ⟨guards, sound.guarded guards fits⟩

theorem run (sound : s.Sound) (run : ReflTransGen Next s s') : s'.Sound := by
  induction run with
  | refl => exact sound
  | tail _ next ih =>
    obtain ⟨t, steps⟩ := next
    exact (ih.step steps).2

/-- What was released stays so, and its modules as they ended. -/
theorem released {m : ModuleId} (sound : s.Sound) (released : s.registry.claimOf? m = some .released)
    (run : ReflTransGen Next s s') : s'.registry.claimOf? m = some .released ∧
      s'.registry.progressOf? m = s.registry.progressOf? m := by
  induction run with
  | refl => exact ⟨released, rfl⟩
  | tail run next ih =>
    obtain ⟨t, steps⟩ := next
    obtain ⟨before, same⟩ := ih
    obtain ⟨guards, _⟩ := (sound.run run).step steps
    refine ⟨guards.claimOf?_released before, (guards.progress m fun holds => ?_).trans same⟩
    cases before.symm.trans holds

end Sound

end Traffic

/-! ## Waiting -/

/-- Some member of a component depends on one of another component. -/
def Registry.Above (r : Registry κ) (c c' : ComponentId) : Prop :=
  c ≠ c' ∧ ∃ m m', r.componentOf? m = some c ∧ r.componentOf? m' = some c' ∧
    ReflTransGen r.DependsOn m m'

theorem Registry.Above.trans {r : Registry κ} {c c' c'' : ComponentId} (linkage : r.Linkage)
    (first : r.Above c c') (second : r.Above c' c'') : r.Above c c'' := by
  obtain ⟨apart, m, m', place, place', way⟩ := first
  obtain ⟨_, n, n', there, there', onward⟩ := second
  -- The two modules of the middle component depend on each other.
  obtain ⟨across, _⟩ := (linkage.grouped.strong m' n c' c' place' there).mp rfl
  have whole := (way.trans across).trans onward
  refine ⟨fun same => apart ?_, m, n', place, there', whole⟩
  subst same
  obtain ⟨_, back⟩ := (linkage.grouped.strong m n' c c place there').mp rfl
  exact (linkage.grouped.strong m m' c c' place place').mpr
    ⟨way, (across.trans onward).trans back⟩

/-- From component to component below, one comes to an end. -/
theorem Registry.wellFounded_above {r : Registry κ} (linkage : r.Linkage) :
    WellFounded fun c c' => r.Above c' c := by
  classical
  -- Fewer and fewer components are below.
  let rank (c : ComponentId) : Nat :=
    ((Finset.range r.components.size).filter fun n => r.Above c ⟨n⟩).card
  refine Subrelation.wf (fun {c c'} above => ?_) (InvImage.wf rank Nat.lt_wfRel.wf)
  obtain ⟨_, _, m, _, place, _⟩ := id above
  obtain ⟨component, there, _⟩ := (linkage.grouped.members m c).mp place
  have inside : c.index < r.components.size := (Array.getElem?_eq_some_iff.mp there).1
  refine Finset.card_lt_card (Finset.ssubset_iff_of_subset (fun n member => ?_) |>.mpr
    ⟨c.index, ?_, fun member => ?_⟩)
  · obtain ⟨here, below⟩ := Finset.mem_filter.mp member
    exact Finset.mem_filter.mpr ⟨here, above.trans linkage below⟩
  · exact Finset.mem_filter.mpr ⟨Finset.mem_range.mpr inside, above⟩
  · exact (Finset.mem_filter.mp member).2.1 rfl

/-- Modules that wait for a visit depend on what is visited. -/
theorem Frame.Await.depends {r : Registry κ} {below : List Frame} {m : ModuleId}
    (awaits : Frame.Await below m)
    (asks : ∀ f ∈ below, ∀ target ∈ f.rest, r.DependsOn f.module target) :
    ∀ f ∈ below, ReflTransGen r.DependsOn f.module m := by
  induction below generalizing m with
  | nil => simp
  | cons f below ih =>
    obtain ⟨next, awaits⟩ := awaits
    obtain ⟨here, others⟩ := List.forall_mem_cons.mp asks
    have edge := here m (List.mem_of_mem_head? next)
    exact List.forall_mem_cons.mpr
      ⟨.single edge, fun g member => (ih awaits others g member).tail edge⟩

namespace Traffic

/-- A traversal asks for a component. -/
def Asks (s : Traffic κ) (t : Nat) (c : ComponentId) : Prop :=
  ∃ m below, s.walks t = some ⟨.arriving m, below⟩ ∧ s.registry.componentOf? m = some c

namespace Sound

variable {s s' : Traffic κ} {t u v : Nat} {c c' : ComponentId}

theorem asks_of_waits (waits : s.Waits t u) :
    ∃ c, s.Asks t c ∧ s.registry.claim? c = some (.held u) := by
  obtain ⟨_, m, below, here, holds⟩ := waits
  obtain ⟨c, place, held⟩ := Registry.claimOf?_eq_some_iff.mp holds
  exact ⟨c, ⟨m, below, here, place⟩, held⟩

/-- If a traversal waits for one that waits itself, what the first one asks for depends on what
the second one asks for. -/
theorem above_of_waits (sound : s.Sound) (waits : s.Waits t u) (onward : s.Waits u v)
    (asks : s.Asks t c) (asks' : s.Asks u c') : s.registry.Above c c' := by
  obtain ⟨c'', ⟨m, below, here, place⟩, held⟩ := asks_of_waits waits
  obtain ⟨_, _, here', place'⟩ := asks
  cases here.symm.trans here'
  cases place.symm.trans place'
  obtain ⟨m', below', asker, asked⟩ := asks'
  obtain ⟨apart, _, _, asker', holds⟩ := onward
  cases asker.symm.trans asker'
  have fits := sound.fits u _ asker
  refine ⟨fun same => apart ?_, ?_⟩
  · rw [Registry.holds_iff asked, ← same, held] at holds
    cases holds
    rfl
  · rcases (fits.claims c).mp held with none | ⟨f, member, _, rfl⟩
    · cases none
    · exact ⟨f.module, m', fits.placed f member, asked, fits.awaits.depends fits.asks f member⟩

theorem above_of_way (sound : s.Sound) (way : TransGen s.Waits t u) (waits : s.Waits u v)
    (asks : s.Asks t c) (asks' : s.Asks u c') : s.registry.Above c c' := by
  induction way generalizing v c' with
  | single step => exact sound.above_of_waits step waits asks asks'
  | tail way step ih =>
    obtain ⟨b, between, _⟩ := asks_of_waits step
    exact (ih step between).trans sound.linkage (sound.above_of_waits step waits between asks')

/-- Traversals do not wait for each other in a circle. -/
theorem acyclic (sound : s.Sound) (t : Nat) : ¬ TransGen s.Waits t t := by
  intro circle
  obtain ⟨u, waits, _⟩ := TransGen.head'_iff.mp circle
  obtain ⟨c, asks, _⟩ := asks_of_waits waits
  exact (sound.above_of_way circle waits asks asks).1 rfl

/-- A traversal that holds a component is not over. -/
theorem unfinished (sound : s.Sound) (held : s.registry.claim? c = some (.held t)) :
    s.Unfinished t := by
  obtain ⟨w, here⟩ := Option.ne_none_iff_exists'.mp (sound.owned c t held)
  refine ⟨w, here, fun m outcome left => ?_⟩
  subst left
  rcases ((sound.fits t _ here).claims c).mp held with none | ⟨f, member, _⟩
  · cases none
  · cases member

/-- A traversal that is not over takes a step, or it waits for another one. -/
theorem steps_or_waits (sound : s.Sound) (unfinished : s.Unfinished t) :
    (∃ s', Steps t s s') ∨ ∃ u, s.Waits t u := by
  obtain ⟨⟨phase, below⟩, here, open_⟩ := unfinished
  have fits := sound.fits t _ here
  have moves : ∀ {w' r'}, Walk.Moves s.registry t ⟨phase, below⟩ w' r' →
      (∃ s', Steps t s s') ∨ ∃ u, s.Waits t u := fun moves => .inl ⟨_, .move here moves⟩
  have known : ∀ {m c}, s.registry.componentOf? m = some c → ∃ i, s.registry.get? m = some i := by
    intro m c place
    obtain ⟨i, known, _⟩ := Option.bind_eq_some_iff.mp place
    exact ⟨i, known⟩
  cases phase with
  | arriving m =>
    cases there : s.registry.get? m with
    | none => exact moves (.unknown there)
    | some i =>
      cases place : i.component with
      | none => exact moves (.unlinked there place)
      | some c =>
        cases component : s.registry.component? c with
        | none => exact moves (.missing there place component)
        | some component' =>
          by_cases blocked : (component'.acquire t).1 = .blocked
          · right
            have inside : s.registry.componentOf? m = some c := by
              rw [Registry.componentOf?, there]
              exact place
            unfold Component.acquire at blocked
            split at blocked
            · cases blocked
            · next holder claim =>
              split at blocked
              · cases blocked
              · next other =>
                refine ⟨holder, other, m, below, here, (Registry.holds_iff inside).mpr ?_⟩
                rw [Registry.claim?, component, Option.map_some, claim]
            · cases blocked
          · exact moves (.acquire there place component blocked)
  | meeting m =>
    obtain ⟨c, place, _⟩ := Registry.claimOf?_eq_some_iff.mp fits.phase
    obtain ⟨i, known⟩ := known place
    exact moves (.meet known)
  | looking m c =>
    obtain ⟨i, known⟩ := known fits.phase.1
    by_cases waiting : i.progress = .notStarted
    · exact moves (.join known waiting)
    · exact moves (.look known waiting)
  | beginning m c root =>
    obtain ⟨i, known⟩ := known fits.phase.1
    exact moves (.begin known)
  | visiting f =>
    cases rest : f.rest with
    | nil =>
      obtain ⟨i, known⟩ := known (fits.placed f List.mem_cons_self)
      cases home : i.environment with
      | none => exact moves (.homeless rest known home)
      | some e => exact moves (.enter rest known home)
    | cons target others => exact moves (.descend (by rw [rest]; rfl : f.rest.head? = some target))
  | running f => exact moves (.finish (.ok ()))
  | ending f outcome => exact moves .record
  | sweeping m c e => exact moves .sweep
  | releasing m c outcome => exact moves .release
  | leaving m outcome =>
    cases below with
    | nil => exact absurd rfl (open_ m outcome)
    | cons f below =>
      cases outcome with
      | ok _ => exact moves .resume
      | error e => exact moves .fail

/-- A traversal that waits does so, in the end, for one that can go on. -/
theorem live (sound : s.Sound) (unfinished : s.Unfinished t) :
    ∃ u, ReflTransGen s.Waits t u ∧ s.Unfinished u ∧ ∃ s', Steps u s s' := by
  rcases sound.steps_or_waits unfinished with steps | ⟨u, waits⟩
  · exact ⟨t, .refl, unfinished, steps⟩
  obtain ⟨c, asks, held⟩ := asks_of_waits waits
  -- What is asked for on the way is further and further below.
  induction c using (Registry.wellFounded_above sound.linkage).induction generalizing t u with
  | _ c ih =>
    have working := sound.unfinished held
    rcases sound.steps_or_waits working with steps | ⟨v, onward⟩
    · exact ⟨u, .single waits, working, steps⟩
    · obtain ⟨c', asks', held'⟩ := asks_of_waits onward
      obtain ⟨x, way, there⟩ :=
        ih c' (sound.above_of_waits waits onward asks asks') working v onward asks' held'
      exact ⟨x, .head waits way, there⟩

end Sound

/-- What holds while any number of traversals share the modules. -/
structure Safe (s : Traffic κ) : Prop where
  /-- No module is entered twice. -/
  once : (s.registry.entered.events.map (·.module)).Nodup
  /-- Only the traversal that holds the component of a module changes the progress of it. -/
  single : ∀ t s', Steps t s s' → ∀ m,
    s'.registry.progressOf? m ≠ s.registry.progressOf? m → s.registry.Holds t m
  /-- A traversal that meets a released component reads how the module ended, and this is so
  for good. -/
  final : ∀ t m below, s.walks t = some ⟨.meeting m, below⟩ → s.registry.Over m ∧
    ∀ s', ReflTransGen Next s s' → s'.registry.progressOf? m = s.registry.progressOf? m
  /-- Traversals do not wait for each other in a circle. -/
  acyclic : ∀ t, ¬ TransGen s.Waits t t
  /-- As long as a traversal is not over, it or one for which it waits in the end can go on. -/
  live : ∀ t, s.Unfinished t →
    ∃ u, ReflTransGen s.Waits t u ∧ s.Unfinished u ∧ ∃ s', Steps u s s'
  /-- A traversal can do what an evaluation does that has the modules for itself. -/
  alone : ∀ t {σ : Type} (interpreter : Interpreter κ σ) entry w outcome machine,
    s.walks t = none →
    Machine.evaluate interpreter t entry ⟨s.registry, w⟩ = (some outcome, machine) →
      ReflTransGen Next s
        ⟨machine.registry, Function.update s.walks t (some ⟨.leaving entry outcome, []⟩)⟩

theorem Sound.safe {s : Traffic κ} (sound : s.Sound) : s.Safe where
  once := sound.entered.1
  single t s' steps m change := by
    by_contra apart
    exact change ((sound.step steps).1.progress m apart)
  final t m below here :=
    have released := (sound.fits t _ here).phase
    ⟨sound.ended m released, fun s' run => (sound.released released run).2⟩
  acyclic := sound.acyclic
  live t unfinished := sound.live unfinished
  alone t _ _ _ _ _ _ unused ran := run_of_evaluate unused ran

end Traffic

/-- After any history, whatever traversals start and however they take turns, they are safe. -/
theorem Site.traversals_safe {σ ℓ : Type} (setup : Setup κ σ ℓ) (memo : σ) (source : ℓ)
    (calls : List (Call κ σ ℓ)) {s : Traffic κ}
    (reached : ReflTransGen Traffic.Next
      (.quiet ((start memo source).run setup calls).registry) s) : s.Safe := by
  have orderly := Orderly.of_run setup memo source calls
  have sound := Traffic.Sound.quiet orderly.linkage orderly.settled orderly.entered
  exact (sound.run reached).safe

/-- Two traversals of the reader: the second one waits for the first one, which holds its
component. -/
theorem Site.readers_safe : ∃ s : Traffic Unit,
    ReflTransGen Traffic.Next (.quiet Sample.prepared.registry) s ∧ s.Waits 1 0 ∧ s.Safe := by
  have ready : (Sample.prepared.registry.get? ⟨0⟩).map (·.component) = some (some ⟨1⟩) ∧
      Sample.prepared.registry.component? ⟨1⟩ = some ⟨[⟨0⟩], .free⟩ := by
    decide +kernel
  obtain ⟨known, there⟩ := ready
  obtain ⟨i, known, place⟩ := Option.map_eq_some_iff.mp known
  have taken : Walk.Moves _ 0 ⟨.arriving ⟨0⟩, []⟩ _ _ := .acquire known place there (by decide)
  have first : Traffic.Next (.quiet Sample.prepared.registry) ⟨Sample.prepared.registry,
      Function.update (fun _ => none) 0 (some ⟨.arriving ⟨0⟩, []⟩)⟩ := ⟨0, .start ⟨0⟩ rfl⟩
  have takes := Traffic.Steps.move (s := ⟨Sample.prepared.registry,
    Function.update (fun _ => none) 0 (some ⟨.arriving ⟨0⟩, []⟩)⟩) rfl taken
  have reached := ((ReflTransGen.single first).tail ⟨0, takes⟩).tail ⟨1, .start ⟨0⟩ rfl⟩
  refine ⟨_, reached, ⟨by decide, ⟨0⟩, [], rfl, ?_⟩,
    Site.traversals_safe Sample.setup () () Sample.preparation reached⟩
  refine Registry.claimOf?_eq_some_iff.mpr ⟨⟨1⟩, ?_, ?_⟩
  · exact Option.bind_eq_some_iff.mpr ⟨i, known, place⟩
  · exact Registry.claim?_setComponent there (.held 0) ⟨1⟩

end MixedModules
