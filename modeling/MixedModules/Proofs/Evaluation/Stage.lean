import MixedModules.Proofs.Registry.Linkage

/-! How far one traversal has come.

Between traversals nothing is in progress and nobody holds a claim. Within one, three
lists of modules tell everything that is different: those on the way down, those that
are completed, and those that failed. Progress and claims are read off these lists, so
each step of a traversal is a change of the lists. -/
namespace MixedModules
open Relation

variable {κ : Type}

/-- Nothing is under way: components are free and untouched, or done with. -/
structure Registry.Settled (r : Registry κ) : Prop where
  idle : ∀ m, r.progressOf? m ≠ some .inProgress
  unlinked : ∀ m i, r.get? m = some i → i.isLinked = false → i.progress = .notStarted
  claims : ∀ c component, r.component? c = some component →
    (component.claim = .free ∧
      ∀ m ∈ component.members, r.progressOf? m = some .notStarted) ∨
    (component.claim = .released ∧ ∃ e, ∀ m ∈ component.members,
      r.progressOf? m = some .completed ∨ r.progressOf? m = some (.errored e))
  follows : ∀ m target, r.progressOf? m = some .completed → r.DependsOn m target →
    r.progressOf? target = some .completed ∨ r.componentOf? target = r.componentOf? m

namespace Registry.Settled

variable {r : Registry κ} {m : ModuleId} {c : ComponentId} {component : Component}

/-- A component with one member that was not begun was not begun at all. -/
theorem untouched (settled : r.Settled) (known : r.component? c = some component)
    (member : m ∈ component.members) (waiting : r.progressOf? m = some .notStarted) :
    component.claim = .free ∧ ∀ x ∈ component.members, r.progressOf? x = some .notStarted := by
  rcases settled.claims c component known with free | ⟨_, e, spent⟩
  · exact free
  · rcases spent m member with completed | failed
    · rw [waiting] at completed
      cases completed
    · rw [waiting] at failed
      cases failed

/-- A component with one member that is done with is done with. -/
theorem finished (settled : r.Settled) (known : r.component? c = some component)
    (member : m ∈ component.members) (spent : r.progressOf? m ≠ some .notStarted) :
    component.claim = .released ∧ ∀ x ∈ component.members, r.progressOf? x ≠ some .notStarted := by
  rcases settled.claims c component known with ⟨_, waiting⟩ | ⟨released, e, ended⟩
  · exact absurd (waiting m member) spent
  · refine ⟨released, fun x inside waiting => ?_⟩
    rcases ended x inside with completed | failed
    · rw [waiting] at completed
      cases completed
    · rw [waiting] at failed
      cases failed

end Registry.Settled

/-- The modules of a traversal: on the way down, the latest first, completed, and
failed. A module that was completed before its component failed stays completed. -/
structure Stage where
  stack : List ModuleId
  done : List ModuleId
  doomed : List ModuleId

namespace Stage

/-- The progress of a module whose progress was `before`, if failures are for `e`. -/
def progress (stage : Stage) (e : EvalError) (m : ModuleId) (before : Progress) : Progress :=
  if m ∈ stage.stack then .inProgress
  else if m ∈ stage.done then .completed
  else if m ∈ stage.doomed then .errored e
  else before

/-- The claim of a component: held while a member is on the way down. -/
def claim (stage : Stage) (traversal : Nat) (component : Component) : Claim :=
  if ∃ m ∈ component.members, m ∈ stage.stack then .held traversal
  else if ∃ m ∈ component.members, m ∈ stage.done ∨ m ∈ stage.doomed then .released
  else component.claim

/-- What holds of the modules of a traversal over what was there before it. -/
structure Sound (r : Registry κ) (stage : Stage) : Prop where
  once : stage.stack.Nodup
  apart : ∀ m ∈ stage.done, m ∉ stage.stack
  fresh : ∀ m, m ∈ stage.stack ∨ m ∈ stage.done ∨ m ∈ stage.doomed →
    r.Linked m ∧ r.progressOf? m = some .notStarted
  chain : stage.stack.Pairwise fun later earlier => ReflTransGen r.DependsOn earlier later
  closed : ∀ m ∈ stage.done, ∀ target, r.DependsOn m target →
    target ∈ stage.done ∨ r.progressOf? target = some .completed ∨
      (target ∈ stage.stack ∨ target ∈ stage.doomed) ∧ r.componentOf? target = r.componentOf? m
  balanced : ∀ m, m ∈ stage.done ∨ m ∈ stage.doomed → ∀ other,
    r.componentOf? other = r.componentOf? m → other ∈ stage.done ∨ other ∈ stage.doomed ∨
      ∃ x ∈ stage.stack, r.componentOf? x = r.componentOf? m

/-- Two stages tell the same of a module. -/
def Agrees (stage other : Stage) (m : ModuleId) : Prop :=
  (m ∈ stage.stack ↔ m ∈ other.stack) ∧ (m ∈ stage.done ↔ m ∈ other.done) ∧
    (m ∈ stage.doomed ↔ m ∈ other.doomed)

theorem progress_congr {stage other : Stage} {e : EvalError} {m : ModuleId} {before : Progress}
    (agrees : stage.Agrees other m) : stage.progress e m before = other.progress e m before := by
  obtain ⟨stack, done, doomed⟩ := agrees
  simp only [progress, stack, done, doomed]

theorem claim_congr {stage other : Stage} {traversal : Nat} {component : Component}
    (agrees : ∀ m ∈ component.members, stage.Agrees other m) :
    stage.claim traversal component = other.claim traversal component := by
  have stack : (∃ m ∈ component.members, m ∈ stage.stack) ↔
      ∃ m ∈ component.members, m ∈ other.stack :=
    exists_congr fun m => and_congr_right fun member => (agrees m member).1
  have rest : (∃ m ∈ component.members, m ∈ stage.done ∨ m ∈ stage.doomed) ↔
      ∃ m ∈ component.members, m ∈ other.done ∨ m ∈ other.doomed :=
    exists_congr fun m => and_congr_right fun member =>
      or_congr (agrees m member).2.1 (agrees m member).2.2
  simp only [claim, stack, rest]

end Stage

/-- A registry in a traversal, over what was there before it. -/
structure Registry.At (r : Registry κ) (traversal : Nat) (e : EvalError) (stage : Stage)
    (now : Registry κ) : Prop where
  modules : ∀ m, now.get? m =
    (r.get? m).map fun i => { i with progress := stage.progress e m i.progress }
  components : ∀ c, now.component? c =
    (r.component? c).map fun component => { component with claim := stage.claim traversal component }

namespace Registry.At

variable {r now : Registry κ} {traversal : Nat} {e : EvalError} {stage : Stage} {m : ModuleId}
  {c : ComponentId} {component : Component}

theorem sameModules (here : r.At traversal e stage now) : r.SameModules now := by
  refine ⟨fun m => ⟨stage.progress e m, here.modules m⟩, fun c => ?_⟩
  rw [here.components]
  cases r.component? c <;> rfl

theorem progressOf? (here : r.At traversal e stage now) :
    now.progressOf? m = (r.progressOf? m).map (stage.progress e m) := by
  unfold Registry.progressOf?
  rw [here.modules]
  cases r.get? m <;> rfl

theorem start : r.At traversal e ⟨[], [], []⟩ r := by
  refine ⟨fun m => ?_, fun c => ?_⟩
  · cases r.get? m <;> simp [Stage.progress]
  · cases r.component? c <;> simp [Stage.claim]

/-- As long as nothing failed, no failure shows. -/
theorem rename {stack done : List ModuleId} {other : EvalError}
    (here : r.At traversal e ⟨stack, done, []⟩ now) : r.At traversal other ⟨stack, done, []⟩ now :=
  ⟨fun m => by rw [here.modules]; rfl, here.components⟩

/-- A step that concerns the claim of one component only. -/
theorem move (here : r.At traversal e stage now) (linkage : r.Linkage) {next : Registry κ}
    {after : Stage} (agrees : ∀ x, r.componentOf? x ≠ some c → stage.Agrees after x)
    (modules : ∀ x, next.get? x =
      (r.get? x).map fun i => { i with progress := after.progress e x i.progress })
    (components : ∀ c', next.component? c' = if c' = c
      then (r.component? c).map fun component =>
        { component with claim := after.claim traversal component }
      else now.component? c') : r.At traversal e after next := by
  refine ⟨modules, fun c' => ?_⟩
  rw [components]
  by_cases same : c' = c
  · rw [if_pos same, same]
  · rw [if_neg same, here.components]
    cases known : r.component? c' with
    | none => rfl
    | some component =>
      have apart : ∀ x ∈ component.members, stage.Agrees after x := by
        intro x member
        refine agrees x fun inside => same ?_
        have place := (linkage.grouped.members x c').mpr ⟨component, known, member⟩
        rw [place] at inside
        exact Option.some.inj inside
      simp only [Option.map_some, Stage.claim_congr apart]

section Steps

variable {stack done doomed : List ModuleId} (linkage : r.Linkage)

include linkage

theorem member_iff (known : r.component? c = some component) :
    m ∈ component.members ↔ r.componentOf? m = some c := by
  rw [linkage.grouped.members]
  constructor
  · exact fun member => ⟨component, known, member⟩
  · rintro ⟨other, known', member⟩
    cases known.symm.trans known'
    exact member

/-- A module is begun, in a component whose claim is held by now. -/
theorem push (here : r.At traversal e ⟨stack, done, doomed⟩ now)
    (place : r.componentOf? m = some c) {claimed : Registry κ}
    (same : ∀ x, claimed.get? x = now.get? x)
    (claims : ∀ c', claimed.component? c' = if c' = c
      then (r.component? c).map fun component => { component with claim := .held traversal }
      else now.component? c') :
    r.At traversal e ⟨m :: stack, done, doomed⟩ (claimed.setProgress m .inProgress) := by
  have other : ∀ x, x ≠ m → Stage.Agrees ⟨stack, done, doomed⟩ ⟨m :: stack, done, doomed⟩ x :=
    fun x different => ⟨by simp [different], Iff.rfl, Iff.rfl⟩
  refine here.move linkage (fun x apart => other x fun same => apart (same ▸ place)) (fun x => ?_)
    fun c' => ?_
  · rw [Registry.setProgress, Registry.get?_modify, same, here.modules]
    by_cases same : m = x
    · subst same
      simp [Stage.progress, Function.comp_def]
    · simp only [if_neg same, Stage.progress_congr (other x (Ne.symm same))]
  · rw [Registry.setProgress, Registry.component?_modify, claims]
    obtain ⟨component, known, member⟩ := (linkage.grouped.members m c).mp place
    have held : ∃ x ∈ component.members, x ∈ m :: stack := ⟨m, member, List.mem_cons_self⟩
    simp only [known, Option.map_some, Stage.claim, if_pos held]

/-- Where the module that leaves the stack shares its component with one that stays, the
claim is kept. -/
theorem pop_inner (here : r.At traversal e ⟨m :: stack, done, doomed⟩ now)
    (place : r.componentOf? m = some c) (inner : ∃ x ∈ stack, r.componentOf? x = some c)
    {after : Stage} {progress : Progress} (rest : after.stack = stack)
    (agrees : ∀ x, x ≠ m → Stage.Agrees ⟨m :: stack, done, doomed⟩ after x)
    (ends : ∀ before, after.progress e m before = progress) :
    r.At traversal e after (now.setProgress m progress) := by
  refine here.move linkage (fun x apart => agrees x fun same => apart (same ▸ place)) (fun x => ?_)
    fun c' => ?_
  · rw [Registry.setProgress, Registry.get?_modify, here.modules]
    by_cases same : m = x
    · subst same
      simp [ends, Function.comp_def]
    · simp only [if_neg same, Stage.progress_congr (agrees x (Ne.symm same))]
  · rw [Registry.setProgress, Registry.component?_modify]
    by_cases same : c' = c
    · subst same
      obtain ⟨component, known, member⟩ := (linkage.grouped.members m c').mp place
      obtain ⟨x, stays, shares⟩ := inner
      have inside := (member_iff linkage known).mpr shares
      have before : ∃ x ∈ component.members, x ∈ m :: stack := ⟨m, member, List.mem_cons_self⟩
      have later : ∃ x ∈ component.members, x ∈ after.stack := ⟨x, inside, rest ▸ stays⟩
      rw [if_pos rfl, here.components, known]
      simp only [Option.map_some, Stage.claim, if_pos before, if_pos later]
    · rw [if_neg same]

/-- A component is released when no member is left on the stack. -/
theorem release (here : r.At traversal e ⟨m :: stack, done, doomed⟩ now)
    (place : r.componentOf? m = some c) (root : ∀ x ∈ stack, r.componentOf? x ≠ some c)
    {after : Stage} {next : Registry κ} (rest : after.stack = stack)
    (agrees : ∀ x, r.componentOf? x ≠ some c → Stage.Agrees ⟨m :: stack, done, doomed⟩ after x)
    (spent : m ∈ after.done ∨ m ∈ after.doomed)
    (modules : ∀ x, next.get? x =
      (r.get? x).map fun i => { i with progress := after.progress e x i.progress })
    (components : ∀ c', next.component? c' = now.component? c') :
    r.At traversal e after (next.release c) := by
  obtain ⟨component, known, member⟩ := (linkage.grouped.members m c).mp place
  have now_known : next.component? c =
      some { component with claim := Stage.claim ⟨m :: stack, done, doomed⟩ traversal component } := by
    rw [components, here.components, known]
    rfl
  have released : next.release c = next.setComponent c { component with claim := .released } := by
    rw [Registry.release, now_known]
    rfl
  rw [released]
  refine here.move linkage agrees (fun x => ?_) fun c' => ?_
  · rw [Registry.get?_setComponent, modules]
  · rw [Registry.component?_setComponent]
    by_cases same : c' = c
    · subst same
      have gone : ¬ ∃ x ∈ component.members, x ∈ after.stack := by
        rintro ⟨x, inside, stays⟩
        exact root x (rest ▸ stays) ((member_iff linkage known).mp inside)
      have finished : ∃ x ∈ component.members, x ∈ after.done ∨ x ∈ after.doomed :=
        ⟨m, member, spent⟩
      simp only [now_known, known, ↓reduceIte, Option.map_some, Stage.claim, if_neg gone,
        if_pos finished]
    · rw [if_neg same, if_neg (Ne.symm same), components]

/-- The last member of a component on the stack is completed. -/
theorem complete_root (here : r.At traversal e ⟨m :: stack, done, doomed⟩ now)
    (place : r.componentOf? m = some c) (root : ∀ x ∈ stack, r.componentOf? x ≠ some c) :
    r.At traversal e ⟨stack, m :: done, doomed⟩ ((now.setProgress m .completed).release c) := by
  have gone : m ∉ stack := fun stays => root m stays place
  have agrees : ∀ x, x ≠ m →
      Stage.Agrees ⟨m :: stack, done, doomed⟩ ⟨stack, m :: done, doomed⟩ x :=
    fun x different => ⟨by simp [different], by simp [different], Iff.rfl⟩
  refine here.release linkage place root rfl
    (fun x apart => agrees x fun same => apart (same ▸ place)) (.inl List.mem_cons_self)
    (fun x => ?_) fun c' => rfl
  rw [Registry.setProgress, Registry.get?_modify, here.modules]
  by_cases same : m = x
  · subst same
    simp [Stage.progress, gone, Function.comp_def]
  · simp only [if_neg same, Stage.progress_congr (agrees x (Ne.symm same))]

/-- The last member of a component on the stack fails, and the others with it. -/
theorem fail_root (here : r.At traversal e ⟨m :: stack, done, doomed⟩ now)
    (known : r.component? c = some component) (member : m ∈ component.members)
    (root : ∀ x ∈ stack, r.componentOf? x ≠ some c) (open_ : m ∉ done)
    (untouched : ∀ x ∈ component.members, r.progressOf? x = some .notStarted) :
    r.At traversal e ⟨stack, done, component.members ++ doomed⟩
      (((now.setProgress m (.errored e)).sweep c e).release c) := by
  have place := (member_iff linkage known).mp member
  have now_known : (now.setProgress m (.errored e)).component? c = some
      { component with claim := Stage.claim ⟨m :: stack, done, doomed⟩ traversal component } := by
    rw [Registry.setProgress, Registry.component?_modify, here.components, known]
    rfl
  have swept : (now.setProgress m (.errored e)).sweep c e =
      (now.setProgress m (.errored e)).fail component.members e := by
    rw [Registry.sweep, now_known]
  refine here.release linkage place root rfl (fun x apart => ?_)
    (.inr (List.mem_append_left _ member)) (fun x => ?_) fun c' => ?_
  · have outside : x ∉ component.members := fun inside => apart ((member_iff linkage known).mp inside)
    have different : x ≠ m := fun same => outside (same ▸ member)
    exact ⟨by simp [different], Iff.rfl, by simp [outside]⟩
  · rw [swept, Registry.get?_fail, Registry.setProgress, Registry.get?_modify, here.modules]
    cases before : r.get? x with
    | none => simp
    | some i =>
      by_cases inside : x ∈ component.members
      · have gone : x ∉ stack := fun stays => root x stays ((member_iff linkage known).mp inside)
        have waiting : i.progress = .notStarted := by
          have held := untouched x inside
          simpa [Registry.progressOf?, before] using held
        by_cases same : m = x
        · subst same
          simp [inside, Stage.progress, gone, open_]
        · by_cases finished : x ∈ done
          · simp [inside, Stage.progress, gone, Ne.symm same, same, finished]
          · by_cases failed : x ∈ doomed <;>
              simp [inside, Stage.progress, gone, Ne.symm same, same, finished, failed, waiting]
      · have different : m ≠ x := fun same => inside (same ▸ member)
        simp [inside, different, Ne.symm different, Stage.progress]
  · rw [swept, Registry.component?_fail]
    rfl

end Steps

end Registry.At

namespace Stage.Sound

variable {r : Registry κ} {stack done doomed : List ModuleId} {m : ModuleId} {c : ComponentId}

theorem start : Sound r ⟨[], [], []⟩ := by
  constructor <;> simp

theorem push (sound : Sound r ⟨stack, done, doomed⟩) (linked : r.Linked m)
    (waiting : r.progressOf? m = some .notStarted) (unstacked : m ∉ stack) (undone : m ∉ done)
    (led : ∀ top ∈ stack.head?, r.DependsOn top m) : Sound r ⟨m :: stack, done, doomed⟩ := by
  refine ⟨List.nodup_cons.mpr ⟨unstacked, sound.once⟩, fun x finished => ?_, fun x known => ?_,
    List.pairwise_cons.mpr ⟨fun x below => ?_, sound.chain⟩, fun x finished target depends => ?_,
    fun x known other shares => ?_⟩
  · intro stacked
    rcases List.mem_cons.mp stacked with rfl | stacked
    · exact undone finished
    · exact sound.apart x finished stacked
  · rcases known with stacked | known
    · rcases List.mem_cons.mp stacked with rfl | stacked
      · exact ⟨linked, waiting⟩
      · exact sound.fresh x (.inl stacked)
    · exact sound.fresh x (.inr known)
  · cases stack with
    | nil => cases below
    | cons top rest =>
      have edge := led top rfl
      rcases List.mem_cons.mp below with rfl | below
      · exact .single edge
      · exact ((List.pairwise_cons.mp sound.chain).1 x below).tail edge
  · rcases sound.closed x finished target depends with finished | completed | ⟨known, shares⟩
    · exact .inl finished
    · exact .inr (.inl completed)
    · exact .inr (.inr ⟨known.imp_left (List.mem_cons_of_mem _), shares⟩)
  · rcases sound.balanced x known other shares with finished | failed | ⟨y, stacked, same⟩
    · exact .inl finished
    · exact .inr (.inl failed)
    · exact .inr (.inr ⟨y, List.mem_cons_of_mem _ stacked, same⟩)

/-- A module that fails while its component goes on. -/
theorem fail_inner (sound : Sound r ⟨m :: stack, done, doomed⟩)
    (inner : ∃ x ∈ stack, r.componentOf? x = r.componentOf? m) :
    Sound r ⟨stack, done, m :: doomed⟩ := by
  obtain ⟨y, stays, same⟩ := inner
  refine ⟨(List.nodup_cons.mp sound.once).2, fun x finished stacked => ?_, fun x known => ?_,
    (List.pairwise_cons.mp sound.chain).2, fun x finished target depends => ?_,
    fun x known other shares => ?_⟩
  · exact sound.apart x finished (List.mem_cons_of_mem _ stacked)
  · apply sound.fresh x
    rcases known with stacked | finished | failed
    · exact .inl (List.mem_cons_of_mem _ stacked)
    · exact .inr (.inl finished)
    · rcases List.mem_cons.mp failed with rfl | failed
      · exact .inl List.mem_cons_self
      · exact .inr (.inr failed)
  · rcases sound.closed x finished target depends with finished | completed | ⟨known, shares⟩
    · exact .inl finished
    · exact .inr (.inl completed)
    · refine .inr (.inr ⟨?_, shares⟩)
      rcases known with stacked | failed
      · rcases List.mem_cons.mp stacked with rfl | stacked
        · exact .inr List.mem_cons_self
        · exact .inl stacked
      · exact .inr (List.mem_cons_of_mem _ failed)
  · have old : x ∈ done ∨ x ∈ doomed → other ∈ done ∨ other ∈ m :: doomed ∨
        ∃ z ∈ stack, r.componentOf? z = r.componentOf? x := by
      intro known
      rcases sound.balanced x known other shares with finished | failed | ⟨z, stacked, joined⟩
      · exact .inl finished
      · exact .inr (.inl (List.mem_cons_of_mem _ failed))
      · rcases List.mem_cons.mp stacked with rfl | stacked
        · exact .inr (.inr ⟨y, stays, same.trans joined⟩)
        · exact .inr (.inr ⟨z, stacked, joined⟩)
    rcases known with finished | failed
    · exact old (.inl finished)
    · rcases List.mem_cons.mp failed with rfl | failed
      · exact .inr (.inr ⟨y, stays, same⟩)
      · exact old (.inr failed)

/-- A module that fails, with which its component ends. -/
theorem fail_root {component : Component} (sound : Sound r ⟨m :: stack, done, doomed⟩)
    (linkage : r.Linkage) (known : r.component? c = some component)
    (member : m ∈ component.members)
    (untouched : ∀ x ∈ component.members, r.progressOf? x = some .notStarted) :
    Sound r ⟨stack, done, component.members ++ doomed⟩ := by
  have place : ∀ x, x ∈ component.members ↔ r.componentOf? x = r.componentOf? m := fun x => by
    rw [Registry.At.member_iff linkage known, (Registry.At.member_iff linkage known).mp member]
  refine ⟨(List.nodup_cons.mp sound.once).2, fun x finished stacked => ?_, fun x from_ => ?_,
    (List.pairwise_cons.mp sound.chain).2, fun x finished target depends => ?_,
    fun x from_ other shares => ?_⟩
  · exact sound.apart x finished (List.mem_cons_of_mem _ stacked)
  · rcases from_ with stacked | finished | failed
    · exact sound.fresh x (.inl (List.mem_cons_of_mem _ stacked))
    · exact sound.fresh x (.inr (.inl finished))
    · rcases List.mem_append.mp failed with inside | failed
      · refine ⟨(linkage.placed x).mpr ⟨c, ?_⟩, untouched x inside⟩
        exact (Registry.At.member_iff linkage known).mp inside
      · exact sound.fresh x (.inr (.inr failed))
  · rcases sound.closed x finished target depends with finished | completed | ⟨from_, shares⟩
    · exact .inl finished
    · exact .inr (.inl completed)
    · refine .inr (.inr ⟨?_, shares⟩)
      rcases from_ with stacked | failed
      · rcases List.mem_cons.mp stacked with rfl | stacked
        · exact .inr (List.mem_append_left _ member)
        · exact .inl stacked
      · exact .inr (List.mem_append_right _ failed)
  · by_cases inside : x ∈ component.members
    · have also := (place other).mpr (shares.trans ((place x).mp inside))
      exact .inr (.inl (List.mem_append_left _ also))
    · have known' : x ∈ done ∨ x ∈ doomed := from_.imp_right fun failed =>
        (List.mem_append.mp failed).resolve_left inside
      rcases sound.balanced x known' other shares with finished | failed | ⟨z, stacked, joined⟩
      · exact .inl finished
      · exact .inr (.inl (List.mem_append_right _ failed))
      · rcases List.mem_cons.mp stacked with rfl | stacked
        · exact absurd ((place x).mpr joined.symm) inside
        · exact .inr (.inr ⟨z, stacked, joined⟩)

/-- What the way down has led to and leads back to it is in one component with it. -/
theorem shares_component (sound : Sound r ⟨m :: stack, done, doomed⟩) (linkage : r.Linkage)
    {target : ModuleId} (depends : r.DependsOn m target) (stacked : target ∈ stack) :
    r.componentOf? target = r.componentOf? m := by
  have down := (List.pairwise_cons.mp sound.chain).1 target stacked
  obtain ⟨c, here⟩ := (linkage.placed m).mp (sound.fresh m (.inl List.mem_cons_self)).1
  obtain ⟨c', there⟩ := (linkage.placed target).mp
    (sound.fresh target (.inl (List.mem_cons_of_mem _ stacked))).1
  have same := (linkage.grouped.strong m target c c' here there).mpr ⟨.single depends, down⟩
  rw [here, there, same]

/-- A module is completed when all it depends on is completed or on the way down. If it
is the last of its component there, the whole component is completed. -/
theorem complete (sound : Sound r ⟨m :: stack, done, []⟩) (linkage : r.Linkage)
    (settled : r.Settled)
    (covered : ∀ target, r.DependsOn m target →
      target ∈ m :: stack ∨ target ∈ done ∨ r.progressOf? target = some .completed) :
    Sound r ⟨stack, m :: done, []⟩ := by
  have closed : ∀ x ∈ m :: done, ∀ target, r.DependsOn x target →
      target ∈ m :: done ∨ r.progressOf? target = some .completed ∨
        (target ∈ stack ∨ target ∈ []) ∧ r.componentOf? target = r.componentOf? x := by
    intro x finished target depends
    rcases List.mem_cons.mp finished with rfl | finished
    · rcases covered target depends with stacked | finished | completed
      · rcases List.mem_cons.mp stacked with rfl | stacked
        · exact .inl List.mem_cons_self
        · exact .inr (.inr ⟨.inl stacked, sound.shares_component linkage depends stacked⟩)
      · exact .inl (List.mem_cons_of_mem _ finished)
      · exact .inr (.inl completed)
    · rcases sound.closed x finished target depends with finished | completed | ⟨known, shares⟩
      · exact .inl (List.mem_cons_of_mem _ finished)
      · exact .inr (.inl completed)
      · rcases known with stacked | none
        · rcases List.mem_cons.mp stacked with rfl | stacked
          · exact .inl List.mem_cons_self
          · exact .inr (.inr ⟨.inl stacked, shares⟩)
        · cases none
  obtain ⟨linked, waiting⟩ := sound.fresh m (.inl List.mem_cons_self)
  obtain ⟨c, place⟩ := (linkage.placed m).mp linked
  obtain ⟨component, known, member⟩ := (linkage.grouped.members m c).mp place
  have own : ∀ other, r.componentOf? other = r.componentOf? m → other ∈ m :: done ∨
      ∃ x ∈ stack, r.componentOf? x = r.componentOf? m := by
    intro other shares
    by_cases inner : ∃ x ∈ stack, r.componentOf? x = r.componentOf? m
    · exact .inr inner
    -- The component holds nothing else that is completed or on the way down.
    left
    refine linkage.spread place List.mem_cons_self (fun b target reached edge inside => ?_) other
      (shares.trans place)
    rcases closed b reached target edge with finished | completed | ⟨stacked | none, _⟩
    · exact finished
    · have member' := (Registry.At.member_iff linkage known).mpr inside
      have open_ := (settled.untouched known member waiting).2 target member'
      rw [completed] at open_
      cases open_
    · exact absurd ⟨target, stacked, inside.trans place.symm⟩ inner
    · cases none
  refine ⟨(List.nodup_cons.mp sound.once).2, fun x finished stacked => ?_, fun x known => ?_,
    (List.pairwise_cons.mp sound.chain).2, closed, fun x from_ other shares => ?_⟩
  · rcases List.mem_cons.mp finished with rfl | finished
    · exact (List.nodup_cons.mp sound.once).1 stacked
    · exact sound.apart x finished (List.mem_cons_of_mem _ stacked)
  · apply sound.fresh x
    rcases known with stacked | finished | failed
    · exact .inl (List.mem_cons_of_mem _ stacked)
    · rcases List.mem_cons.mp finished with rfl | finished
      · exact .inl List.mem_cons_self
      · exact .inr (.inl finished)
    · exact .inr (.inr failed)
  · by_cases inside : r.componentOf? x = r.componentOf? m
    · rw [inside] at shares ⊢
      exact (own other shares).imp_right .inr
    · have old := from_.resolve_right List.not_mem_nil
      have old := (List.mem_cons.mp old).resolve_left fun same => inside (by rw [same])
      rcases sound.balanced x (.inl old) other shares with finished | failed | ⟨z, stacked, joined⟩
      · exact .inl (List.mem_cons_of_mem _ finished)
      · exact .inr (.inl failed)
      · rcases List.mem_cons.mp stacked with rfl | stacked
        · exact absurd joined.symm inside
        · exact .inr (.inr ⟨z, stacked, joined⟩)

end Stage.Sound

/-- How a module stands in a traversal, with the progress it shows then. -/
inductive Registry.Shows (r : Registry κ) (stage : Stage) (e : EvalError) (m : ModuleId) :
    Option Progress → Prop where
  | running (held : m ∈ stage.stack) (waited : r.progressOf? m = some .notStarted) :
      r.Shows stage e m (some .inProgress)
  | completed (finished : m ∈ stage.done) (unstacked : m ∉ stage.stack)
      (waited : r.progressOf? m = some .notStarted) : r.Shows stage e m (some .completed)
  | failed (taken : m ∈ stage.doomed) (undone : m ∉ stage.done) (unstacked : m ∉ stage.stack)
      (waited : r.progressOf? m = some .notStarted) : r.Shows stage e m (some (.errored e))
  | spared (untaken : m ∉ stage.doomed) (undone : m ∉ stage.done) (unstacked : m ∉ stage.stack) :
      r.Shows stage e m (r.progressOf? m)

namespace Registry.At

variable {r now : Registry κ} {traversal : Nat} {e : EvalError} {stage : Stage} {m : ModuleId}

theorem shows (here : r.At traversal e stage now) (sound : stage.Sound r) (m : ModuleId) :
    r.Shows stage e m (now.progressOf? m) := by
  have waited := fun touched => (sound.fresh m touched).2
  rw [here.progressOf?]
  by_cases held : m ∈ stage.stack
  · rw [waited (.inl held)]
    simpa [Stage.progress, held] using Shows.running held (waited (.inl held))
  by_cases finished : m ∈ stage.done
  · rw [waited (.inr (.inl finished))]
    simpa [Stage.progress, held, finished] using
      Shows.completed finished held (waited (.inr (.inl finished)))
  by_cases taken : m ∈ stage.doomed
  · rw [waited (.inr (.inr taken))]
    simpa [Stage.progress, held, finished, taken] using
      Shows.failed taken finished held (waited (.inr (.inr taken)))
  · have same : stage.progress e m = id := by
      funext before
      simp [Stage.progress, held, finished, taken]
    rw [same, Option.map_id_fun, id]
    exact .spared taken finished held

/-- What an earlier traversal is done with stays as it is. -/
theorem kept (here : r.At traversal e stage now) (sound : stage.Sound r)
    (spent : r.progressOf? m ≠ some .notStarted) : now.progressOf? m = r.progressOf? m := by
  have shows := here.shows sound m
  generalize now.progressOf? m = shown at shows
  cases shows with
  | running _ waited => exact absurd waited spent
  | completed _ _ waited => exact absurd waited spent
  | failed _ _ _ waited => exact absurd waited spent
  | spared => rfl

theorem progressOf?_of_mem {done doomed : List ModuleId} (sound : Stage.Sound r ⟨[], done, doomed⟩)
    (here : r.At traversal e ⟨[], done, doomed⟩ now) (touched : m ∈ done ∨ m ∈ doomed) :
    now.progressOf? m = some .completed ∨ now.progressOf? m = some (.errored e) := by
  have shows := here.shows sound m
  generalize now.progressOf? m = shown at shows
  cases shows with
  | running held => cases held
  | completed => exact .inl rfl
  | failed => exact .inr rfl
  | spared untaken undone => exact absurd touched (not_or.mpr ⟨undone, untaken⟩)

theorem progressOf?_of_not_mem {done doomed : List ModuleId}
    (here : r.At traversal e ⟨[], done, doomed⟩ now) (untouched : ¬ (m ∈ done ∨ m ∈ doomed)) :
    now.progressOf? m = r.progressOf? m := by
  rw [not_or] at untouched
  rw [here.progressOf?]
  cases r.progressOf? m <;> simp [Stage.progress, untouched.1, untouched.2]

theorem inProgress_iff (here : r.At traversal e stage now) (sound : stage.Sound r)
    (settled : r.Settled) : now.progressOf? m = some .inProgress ↔ m ∈ stage.stack := by
  have shows := here.shows sound m
  generalize now.progressOf? m = shown at shows
  cases shows with
  | running held => simp [held]
  | completed _ unstacked => simp [unstacked]
  | failed _ _ unstacked => simp [unstacked]
  | spared _ _ unstacked => simp [unstacked, settled.idle m]

theorem completed_iff (here : r.At traversal e stage now) (sound : stage.Sound r) :
    now.progressOf? m = some .completed ↔ m ∈ stage.done ∨ r.progressOf? m = some .completed := by
  have shows := here.shows sound m
  generalize now.progressOf? m = shown at shows
  cases shows with
  | running held waited =>
    have undone : m ∉ stage.done := fun finished => sound.apart m finished held
    simp [undone, waited]
  | completed finished => simp [finished]
  | failed _ undone _ waited => simp [undone, waited]
  | spared _ undone => simp [undone]

/-- What fails in a traversal, and did not fail before it, was taken along. -/
theorem errored_iff (here : r.At traversal e stage now) (sound : stage.Sound r) {e' : EvalError} :
    (now.progressOf? m = some (.errored e') ∧ ∀ old, r.progressOf? m ≠ some (.errored old)) ↔
      e' = e ∧ m ∈ stage.doomed ∧ m ∉ stage.done ∧ m ∉ stage.stack := by
  have shows := here.shows sound m
  generalize now.progressOf? m = shown at shows
  cases shows with
  | running held => simp [held]
  | completed finished => simp [finished]
  | failed taken undone unstacked waited => simp [taken, undone, unstacked, waited, eq_comm]
  | spared untaken =>
    exact ⟨fun ⟨failed, fresh⟩ => absurd failed (fresh e'), fun ⟨_, taken, _⟩ => absurd taken untaken⟩

theorem notStarted_iff (here : r.At traversal e stage now) (sound : stage.Sound r) :
    now.progressOf? m = some .notStarted ↔ r.progressOf? m = some .notStarted ∧
      m ∉ stage.doomed ∧ m ∉ stage.done ∧ m ∉ stage.stack := by
  have shows := here.shows sound m
  generalize now.progressOf? m = shown at shows
  cases shows with
  | running held => simp [held]
  | completed finished => simp [finished]
  | failed taken => simp [taken]
  | spared untaken undone unstacked => simp [untaken, undone, unstacked]

/-- When nothing is left on the stack, everything is settled again. -/
theorem settled {done doomed : List ModuleId} (here : r.At traversal e ⟨[], done, doomed⟩ now)
    (sound : Stage.Sound r ⟨[], done, doomed⟩) (linkage : r.Linkage) (before : r.Settled) :
    now.Settled := by
  refine ⟨fun m running => ?_, fun m i known unlinked => ?_, fun c component known => ?_,
    fun m target completed depends => ?_⟩
  · cases (here.inProgress_iff sound before).mp running
  · have linked : ¬ r.Linked m := by
      intro linked
      obtain ⟨j, known', held⟩ := here.sameModules.linked_iff.mpr linked
      cases known.symm.trans known'
      rw [held] at unlinked
      cases unlinked
    have untouched : ¬ (m ∈ done ∨ m ∈ doomed) := fun touched =>
      linked (sound.fresh m (.inr touched)).1
    have shape := here.modules m
    rw [known] at shape
    obtain ⟨j, known', rfl⟩ := Option.map_eq_some_iff.mp shape.symm
    have waiting := before.unlinked m j known' unlinked
    rw [not_or] at untouched
    simp [Stage.progress, untouched.1, untouched.2, waiting]
  · rw [here.components] at known
    obtain ⟨old, known', rfl⟩ := Option.map_eq_some_iff.mp known
    by_cases touched : ∃ m ∈ old.members, m ∈ done ∨ m ∈ doomed
    · right
      obtain ⟨m, member, spent⟩ := touched
      refine ⟨by simp [Stage.claim, show ∃ m ∈ old.members, m ∈ done ∨ m ∈ doomed from ⟨m, member, spent⟩],
        e, fun x inside => ?_⟩
      have shares : r.componentOf? x = r.componentOf? m := by
        rw [(member_iff linkage known').mp inside, (member_iff linkage known').mp member]
      refine progressOf?_of_mem sound here ?_
      rcases sound.balanced m spent x shares with finished | failed | ⟨_, none, _⟩
      · exact .inl finished
      · exact .inr failed
      · cases none
    · have same : ∀ x ∈ old.members, now.progressOf? x = r.progressOf? x := fun x inside =>
        here.progressOf?_of_not_mem fun spent => touched ⟨x, inside, spent⟩
      have claim : Stage.claim ⟨[], done, doomed⟩ traversal old = old.claim := by
        simp [Stage.claim, touched]
      simp only [claim]
      rcases before.claims c old known' with ⟨free, waiting⟩ | ⟨released, e', spent⟩
      · exact .inl ⟨free, fun x inside => (same x inside).trans (waiting x inside)⟩
      · exact .inr ⟨released, e', fun x inside => by rw [same x inside]; exact spent x inside⟩
  · have depends := here.sameModules.dependsOn_iff.mp depends
    rw [here.sameModules.componentOf?, here.sameModules.componentOf?]
    rw [here.completed_iff sound]
    rcases (here.completed_iff sound).mp completed with finished | early
    · rcases sound.closed m finished target depends with also | early | ⟨_, shares⟩
      · exact .inl (.inl also)
      · exact .inl (.inr early)
      · exact .inr shares
    · exact (before.follows m target early depends).imp_left .inr

end Registry.At
end MixedModules
