import MixedModules.Proofs.Evaluation.Body
import MixedModules.Proofs.Evaluation.Simulation
import MixedModules.Proofs.Link.Housing

/-! What one evaluation leaves behind.

A search lists modules that were not begun, each once, so no module is entered that
was entered before. What failed now failed for one reason, which the import step or
the body of a module gave. -/
namespace MixedModules

variable {κ σ : Type} {r : Registry κ}

/-- A search lists each module once, and none that was begun or seen before. -/
theorem PostOrder.fresh {path todo seen after : List ModuleId}
    {order : List (ModuleId × List ModuleId)} {stop : Option EvalError}
    (search : PostOrder r path todo seen order stop after) :
    (order.map (·.1)).Nodup ∧ ∀ entry ∈ order, entry.1 ∉ seen ∧ entry.1 ∈ after ∧
      r.progressOf? entry.1 = some .notStarted := by
  induction search with
  | done => simp
  | skip _ _ ih => exact ih
  | stop => simp
  | enter fresh known waiting below rest ihBelow ihRest =>
    obtain ⟨distinct, belowFresh⟩ := ihBelow
    obtain ⟨distinct', restFresh⟩ := ihRest
    have idle := Registry.progressOf?_eq_some_iff.mpr ⟨_, known, waiting⟩
    constructor
    · rw [List.map_append, List.map_cons]
      refine List.Nodup.append distinct (List.nodup_cons.mpr ⟨?_, distinct'⟩) ?_
      · intro again
        obtain ⟨entry, member, same⟩ := List.mem_map.mp again
        exact (restFresh entry member).1 (same ▸ below.kept _ List.mem_cons_self)
      · intro x first second
        obtain ⟨entry, member, rfl⟩ := List.mem_map.mp first
        rcases List.mem_cons.mp second with own | later
        · exact (belowFresh entry member).1 (own ▸ List.mem_cons_self)
        · obtain ⟨other, member', same⟩ := List.mem_map.mp later
          exact (restFresh other member').1 (same ▸ (belowFresh entry member).2.1)
    · intro entry member
      rcases List.mem_append.mp member with inside | own
      · obtain ⟨unseen, reached, waiting⟩ := belowFresh entry inside
        exact ⟨fun held => unseen (List.mem_cons_of_mem _ held), rest.kept _ reached, waiting⟩
      · rcases List.mem_cons.mp own with rfl | later
        · exact ⟨fresh, rest.kept _ (below.kept _ List.mem_cons_self), idle⟩
        · obtain ⟨unseen, reached, waiting⟩ := restFresh entry later
          exact ⟨fun held => unseen (below.kept _ (List.mem_cons_of_mem _ held)), reached, waiting⟩
  | cut fresh _ _ _ ih =>
    refine ⟨ih.1, fun entry member => ?_⟩
    obtain ⟨unseen, reached, waiting⟩ := ih.2 entry member
    exact ⟨fun held => unseen (List.mem_cons_of_mem _ held), reached, waiting⟩

/-- A search stays where dependencies lead. -/
theorem PostOrder.stays {path todo seen after : List ModuleId}
    {order : List (ModuleId × List ModuleId)} {stop : Option EvalError} {inside : ModuleId → Prop}
    (search : PostOrder r path todo seen order stop after)
    (closed : ∀ m target, inside m → r.DependsOn m target → inside target)
    (within : ∀ m ∈ todo, inside m) : ∀ entry ∈ order, inside entry.1 := by
  induction search with
  | done => simp
  | skip _ _ ih => exact ih fun m member => within m (List.mem_cons_of_mem _ member)
  | stop => simp
  | enter _ known _ _ _ ihBelow ihRest =>
    have here := within _ List.mem_cons_self
    intro entry member
    rcases List.mem_append.mp member with below | own
    · exact ihBelow (fun m target => closed _ m here ⟨_, known, target⟩) entry below
    · rcases List.mem_cons.mp own with rfl | later
      · exact here
      · exact ihRest (fun m member => within m (List.mem_cons_of_mem _ member)) entry later
  | cut _ known _ _ ih =>
    have here := within _ List.mem_cons_self
    exact ih fun m target => closed _ m here ⟨_, known, target⟩

/-- A search stops for a failure that was there before. -/
theorem PostOrder.stopped {path todo seen after : List ModuleId}
    {order : List (ModuleId × List ModuleId)} {stop : Option EvalError}
    (search : PostOrder r path todo seen order stop after) :
    ∀ e, stop = some e → ∃ m, r.progressOf? m = some (.errored e) := by
  induction search with
  | done => simp
  | skip _ _ ih => exact ih
  | stop _ failed =>
    intro e same
    cases same
    exact ⟨_, failed⟩
  | enter _ _ _ _ _ _ ih => exact ih
  | cut _ _ _ _ ih => exact ih

/-- A registry after an evaluation that came to an end. -/
structure Registry.Advanced (r : Registry κ) (result : Except EvalError Unit) (r' : Registry κ) :
    Prop where
  same : r.SameModules r'
  settled : r'.Settled
  kept : ∀ m, r.progressOf? m ≠ some .notStarted → r'.progressOf? m = r.progressOf? m
  failed : ∀ m e, r'.progressOf? m = some (.errored e) →
    r.progressOf? m = some (.errored e) ∨ result = .error e
  entered : ∃ news, r'.entered.events = news ++ r.entered.events ∧ (news.map (·.module)).Nodup ∧
    ∀ x ∈ news, r.progressOf? x.module = some .notStarted ∧ r'.Begun x.module

namespace Machine

variable {interpreter : Interpreter κ σ} {traversal : Nat} {w : World κ σ}

/-- What is left when a traversal ends, by what it has completed and what it let down. -/
private theorem advanced_of_at {e : EvalError} {done doomed : List ModuleId} {r' : Registry κ}
    {result : Except EvalError Unit} (linkage : r.Linkage) (settled : r.Settled)
    (here : r.At traversal e ⟨[], done, doomed⟩ r') (sound : Stage.Sound r ⟨[], done, doomed⟩)
    (failed : doomed ≠ [] → result = .error e)
    (entered : ∃ news, r'.entered.events = news ++ r.entered.events ∧
      (news.map (·.module)).Nodup ∧
      ∀ x ∈ news, r.progressOf? x.module = some .notStarted ∧ r'.Begun x.module) :
    r.Advanced result r' := by
  refine ⟨here.sameModules, here.settled sound linkage settled, fun m spent => here.kept sound spent,
    fun m e' recorded => ?_, entered⟩
  have shows := here.shows sound m
  generalize r'.progressOf? m = shown at shows recorded
  cases shows with
  | running held => cases held
  | completed => cases recorded
  | failed taken =>
    cases recorded
    exact .inr (failed (List.ne_nil_of_mem taken))
  | spared => exact .inl recorded

/-- The modules that were entered are those of the entries that ran. -/
theorem modules_of_told {news : List (Entering κ)} {ran : List (ModuleId × List ModuleId)}
    (told : List.Forall₂ Entering.Of news ran) : news.map (·.module) = ran.map (·.1) := by
  induction told with
  | nil => rfl
  | cons of _ ih => rw [List.map_cons, List.map_cons, of.1, ih]

theorem advanced_of_followed {entry : ModuleId} {order : List (ModuleId × List ModuleId)}
    {stop : Option EvalError} {after : List ModuleId} {result : Except EvalError Unit}
    {machine : Machine κ σ} (linkage : r.Linkage) (settled : r.Settled)
    (search : PostOrder r [] [entry] [] order stop after)
    (followed : Followed interpreter r traversal [] after order stop r w (some result, machine)) :
    r.Advanced result machine.registry := by
  obtain ⟨_, _, ⟨news, events, told⟩, _, begun, ends⟩ := followed
  obtain ⟨distinct, fresh⟩ := search.fresh
  have part : (runSearch interpreter r stop order w).1 <+: order := runInOrder_prefix order w
  have modules := modules_of_told told
  have distinct : (news.map (·.module)).Nodup := by
    have once : (news.reverse.map (·.module)).Nodup := by
      rw [modules]
      exact distinct.sublist (part.map (·.1)).sublist
    rwa [List.map_reverse, List.nodup_reverse] at once
  have entered : ∃ news, machine.registry.entered.events = news ++ r.entered.events ∧
      (news.map (·.module)).Nodup ∧ ∀ x ∈ news, r.progressOf? x.module = some .notStarted ∧
        machine.registry.Begun x.module := by
    refine ⟨news, events, distinct, fun x member => ?_⟩
    have listed : x.module ∈ (runSearch interpreter r stop order w).1.map (·.1) := by
      rw [← modules]
      exact List.mem_map_of_mem (List.mem_reverse.mpr member)
    obtain ⟨entry, ran, same⟩ := List.mem_map.mp listed
    rw [← same]
    exact ⟨(fresh entry (part.subset ran)).2.2, begun entry ran⟩
  cases result with
  | ok _ =>
    obtain ⟨e, done, here, sound, _⟩ := ends
    exact advanced_of_at linkage settled here sound (fun none => absurd rfl none) entered
  | error e =>
    obtain ⟨done, doomed, here, sound⟩ := ends
    exact advanced_of_at linkage settled here sound (fun _ => rfl) entered

/-! ## The world -/

/-- A failure that the import step or the body of a linked module gave. -/
def Raised (interpreter : Interpreter κ σ) (r : Registry κ) (e : EvalError) : Prop :=
  ∃ m i home w, r.get? m = some i ∧ i.environment = some home ∧
    (∃ environment, w.store.environment? home = some environment) ∧
    (World.runModule interpreter home i.record w).1 = some (.error e)

section World

variable {m : ModuleId} (stocked : r.Stocked) (housed : Links.Housed ⟨r, w.store⟩)

include stocked housed

/-- Whatever runs for a module leaves the store as sound as it was. -/
theorem leads_program {w' : World κ σ} (before : World.Leads (Store.Safe r.Home) w w') :
    World.Leads (Store.Safe r.Home) w' (program interpreter r m w').2 := by
  have respected := Store.respected_safe r.Home
  unfold program
  cases known : r.get? m with
  | none => exact .refl respected w'
  | some i =>
    cases environment : i.environment with
    | none =>
      simp only [environment]
      exact .refl respected w'
    | some e =>
      simp only [environment]
      exact World.leads_runModule interpreter (before.present.2 housed.sound)
        (Record.wellFormed_of_validate (stocked.checked m i known)) ⟨m, i, known, environment, rfl⟩
        fun other home => housed.unique known environment home

/-- An evaluation leads to a world that is as sound as the one before. A failure was
raised by a module that it ran, or it is what the search stopped for. -/
theorem leads_runSearch {order : List (ModuleId × List ModuleId)} {stop : Option EvalError}
    (linked : ∀ entry ∈ order, r.Linked entry.1) :
    World.Leads (Store.Safe r.Home) w (runSearch interpreter r stop order w).2.2 ∧
      ∀ e, (runSearch interpreter r stop order w).2.1 = some (.error e) →
        stop = some e ∨ Raised interpreter r e := by
  have respected := Store.respected_safe r.Home
  have kept : World.Leads (Store.Safe r.Home) w (runSearch interpreter r stop order w).2.2 ∧
      ∀ e, (runSearch interpreter r stop order w).2.1 = some (.error e) → stop = some e ∨
        ∃ entry ∈ order, ∃ w', World.Leads (Store.Safe r.Home) w w' ∧
          (program interpreter r entry.1 w').1 = some (.error e) :=
    runInOrder_keeps order
      (fun entry _ w' before => before.trans respected (leads_program stocked housed before))
      (World.Leads.refl respected w)
  obtain ⟨leads, failure⟩ := kept
  refine ⟨leads, fun e fails => (failure e fails).imp_right fun found => ?_⟩
  obtain ⟨entry, member, w', between, raised⟩ := found
  obtain ⟨i, known, held⟩ := linked entry member
  obtain ⟨home, environment⟩ := Option.isSome_iff_exists.mp held
  obtain ⟨there, present, _⟩ := housed.present entry.1 i home known environment
  obtain ⟨entities, present⟩ := between.present.1.environments home there present
  refine ⟨entry.1, i, home, w', known, environment, ⟨_, present⟩, ?_⟩
  unfold program at raised
  simpa only [known, environment] using raised

end World

end Machine
end MixedModules
