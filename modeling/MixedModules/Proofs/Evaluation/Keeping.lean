import MixedModules.Proofs.Evaluation.Entering

/-! What a traversal keeps.

A traversal begins modules, runs them when all below them is done, and records how they ended.
Whatever beginning a module keeps, and running it with the record of its outcome, and the record
of a failure from below, the whole traversal keeps. -/
namespace MixedModules

variable {κ σ : Type}

namespace Registry

variable {r : Registry κ} {m x : ModuleId} {root : Option ComponentId} {e : EvalError}

/-- What is left as completed has succeeded, or it was completed before. Nothing else does
away with what is completed. -/
theorem completed_leaving_ok (completed : r.progressOf? x = some .completed ∨
      x = m ∧ ∃ i, r.get? m = some i) :
    (r.leaving m root (some (.ok ()))).progressOf? x = some .completed := by
  have ended : (r.setProgress m .completed).progressOf? x = some .completed := by
    rw [progressOf?_setProgress]
    split
    · next same =>
      subst same
      rcases completed with completed | ⟨_, i, known⟩
      · rw [completed, Option.map_some]
      · rw [progressOf?, known, Option.map_some, Option.map_some]
    · next other => exact completed.resolve_right fun ending => other ending.1.symm
  cases root with
  | none => exact ended
  | some c => exact (progressOf?_release _ c x).trans ended

theorem completed_leaving_error (completed : r.progressOf? x = some .completed) (other : x ≠ m) :
    (r.leaving m root (some (.error e))).progressOf? x = some .completed := by
  have ended : (r.setProgress m (.errored e)).progressOf? x = some .completed := by
    rw [progressOf?_setProgress, if_neg other.symm, completed]
  cases root with
  | none => exact ended
  | some c =>
    refine (progressOf?_release _ c x).trans ?_
    change ((r.setProgress m (.errored e)).sweep c e).progressOf? x = some .completed
    unfold sweep
    cases held : (r.setProgress m (.errored e)).component? c with
    | none => exact ended
    | some component =>
      obtain ⟨i, known, completed⟩ := progressOf?_eq_some_iff.mp ended
      refine progressOf?_eq_some_iff.mpr ⟨i, ?_, completed⟩
      simp only [get?_fail, known]
      split <;> simp [completed]

/-- Where the progress of a module is left open, it is as it was. -/
theorem open_of_leaving {progress : Progress} {result : Except EvalError Unit}
    (left : (r.leaving m root (some result)).progressOf? x = some progress)
    (open_ : progress = .notStarted ∨ progress = .inProgress) :
    x ≠ m ∧ r.progressOf? x = some progress := by
  have ended : ∀ end_, (end_ = .completed ∨ ∃ e, end_ = .errored e) →
      (r.setProgress m end_).progressOf? x = some progress → x ≠ m ∧ r.progressOf? x = some progress := by
    intro end_ ended held
    rw [progressOf?_setProgress] at held
    split at held
    · obtain ⟨_, _, rfl⟩ := Option.map_eq_some_iff.mp held
      rcases ended with rfl | ⟨e, rfl⟩ <;> simp at open_
    · next other => exact ⟨Ne.symm other, held⟩
  cases result with
  | ok _ =>
    refine ended .completed (.inl rfl) ?_
    cases root with
    | none => exact left
    | some c => exact (progressOf?_release _ c x).symm.trans left
  | error e =>
    refine ended (.errored e) (.inr ⟨e, rfl⟩) ?_
    cases root with
    | none => exact left
    | some c =>
      have swept : ((r.setProgress m (.errored e)).sweep c e).progressOf? x = some progress :=
        (progressOf?_release _ c x).symm.trans left
      unfold sweep at swept
      cases held : (r.setProgress m (.errored e)).component? c with
      | none => rwa [held] at swept
      | some component =>
        rw [held] at swept
        obtain ⟨i, known, rfl⟩ := progressOf?_eq_some_iff.mp swept
        rw [get?_fail] at known
        split at known
        · obtain ⟨j, there, rfl⟩ := Option.map_eq_some_iff.mp known
          split at open_ <;> simp_all
        · exact progressOf?_eq_some_iff.mpr ⟨i, known, rfl⟩

end Registry

namespace Machine

/-- A module that is begun is in progress. -/
theorem progressOf?_begins {now begun : Registry κ} {traversal : Nat} {m : ModuleId} {i : Instance κ}
    (begins : now.Begins traversal m i begun) (x : ModuleId) :
    begun.progressOf? x = if m = x then some .inProgress else now.progressOf? x := by
  cases begins with
  | root known =>
    rw [Registry.progressOf?_setProgress]
    split
    · next same =>
      subst same
      rw [Registry.progressOf?, Registry.get?_setComponent, known]
      rfl
    · simp only [Registry.progressOf?, Registry.get?_setComponent]
  | inner known =>
    rw [Registry.progressOf?_setProgress]
    split
    · next same =>
      subst same
      rw [Registry.progressOf?, known]
      rfl
    · rfl

/-- What a traversal keeps of the registry as it is and the world. -/
structure Keeps (interpreter : Interpreter κ σ) (r : Registry κ) (traversal : Nat)
    (P : Registry κ → World κ σ → Prop) : Prop where
  begins : ∀ {path seen : List ModuleId} {now begun : Registry κ} {w : World κ σ} {m : ModuleId}
    {i : Instance κ}, r.Descends traversal path seen now → now.Begins traversal m i begun →
      P now w → P begun w
  runs : ∀ {path seen : List ModuleId} {now : Registry κ} {w w' : World κ σ} {m : ModuleId}
    {result : Except EvalError Unit}, r.Descends traversal (m :: path) seen now → P now w →
      program interpreter r m w = (some result, w') →
        ∀ root, P ((now.enter m).leaving m root (some result)) w'
  fails : ∀ {now : Registry κ} {w : World κ σ} {m : ModuleId} {e : EvalError},
    now.progressOf? m = some .inProgress → P now w →
      ∀ root, P (now.leaving m root (some (.error e))) w

section Steps

variable {interpreter : Interpreter κ σ} {r now : Registry κ} {traversal depth : Nat}
  {path seen todo : List ModuleId} {m : ModuleId} {w : World κ σ} {after : Machine κ σ}
  {P : Registry κ → World κ σ → Prop} {result : Except EvalError Unit}
  (linkage : r.Linkage) (settled : r.Settled)

include linkage settled

/-- A row of visits keeps what each of them keeps. -/
theorem keeps_visits (each : ∀ {m : ModuleId} {seen : List ModuleId} {now : Registry κ}
      {w : World κ σ} {result : Except EvalError Unit} {after : Machine κ σ},
      r.Descends traversal path seen now → r.Linked m → (∀ top ∈ path.head?, r.DependsOn top m) →
        P now w → visit interpreter traversal depth m ⟨now, w⟩ = (some result, after) →
          P after.registry after.world)
    (descends : r.Descends traversal path seen now) (deep : r.size < depth + path.length)
    (below : ∀ m ∈ todo, r.Linked m ∧ ∀ top ∈ path.head?, r.DependsOn top m) (holds : P now w)
    (ran : todo.forM (visit interpreter traversal depth) ⟨now, w⟩ = (some result, after)) :
    P after.registry after.world := by
  induction todo generalizing seen now w with
  | nil =>
    cases ran
    exact holds
  | cons m rest ih =>
    obtain ⟨linked, led⟩ := below m List.mem_cons_self
    rw [Run.forM_cons_apply, Run.bind_apply] at ran
    rcases visited : visit interpreter traversal depth m ⟨now, w⟩ with ⟨_ | _ | _, next⟩ <;>
      rw [visited] at ran
    · cases ran
    · cases ran
      exact each descends linked led holds visited
    · have alone : [m].forM (visit interpreter traversal depth) ⟨now, w⟩ = (some (.ok ()), next) :=
        (Run.forM_singleton_apply ..).trans visited
      obtain ⟨_, descends'⟩ := descends_visits linkage settled descends deep
        (fun x only => List.mem_singleton.mp only ▸ below m List.mem_cons_self) alone
      exact ih descends' (fun x member => below x (List.mem_cons_of_mem m member))
        (each descends linked led holds visited) ran

/-- A visit that ends has kept it. -/
theorem Keeps.holds (keeps : Keeps interpreter r traversal P)
    (descends : r.Descends traversal path seen now) (linked : r.Linked m)
    (led : ∀ top ∈ path.head?, r.DependsOn top m) (deep : r.size < depth + path.length)
    (holds : P now w) (ran : visit interpreter traversal depth m ⟨now, w⟩ = (some result, after)) :
    P after.registry after.world := by
  induction depth generalizing m path seen now w result after with
  | zero => cases ran
  | succ depth ih =>
    obtain ⟨e, done, here, sound, _⟩ := descends.under
    obtain ⟨i, known, _⟩ := here.sameModules.linked_iff.mpr linked
    by_cases waiting : i.progress = .notStarted
    · obtain ⟨begun, begins⟩ := exists_begins linkage settled here sound linked known waiting
      obtain ⟨_, below, descends'⟩ := descends_begins linkage settled descends begins led
      have deep' : r.size < depth + (m :: path).length := deep_below m deep
      have holds' := keeps.begins descends begins holds
      rcases body : (do i.targets.forM (visit interpreter traversal depth); execute interpreter m :
        Run (Machine κ σ) Unit) ⟨begun, w⟩ with ⟨outcome, last⟩
      obtain ⟨root, ended⟩ := visit_begins linkage settled here begins body
      cases ran.symm.trans ended
      rw [Run.bind_apply] at body
      rcases visited : i.targets.forM (visit interpreter traversal depth) ⟨begun, w⟩ with
        ⟨_ | e | _, between⟩ <;> rw [visited] at body
      · cases body
      · cases body
        -- The module was begun and not run, so it is still in progress.
        obtain ⟨_, _, _, _, followed⟩ :=
          exists_followed linkage settled descends'.under deep' below visited
        obtain ⟨_, _, there, sound'⟩ := followed.ends
        exact keeps.fails ((there.inProgress_iff sound' settled).mpr List.mem_cons_self)
          (keeps_visits linkage settled (fun descends linked led holds ran =>
            ih descends linked led deep' holds ran) descends' deep' below holds' visited) root
      · obtain ⟨_, descends''⟩ := descends_visits linkage settled descends' deep' below visited
        have holds'' := keeps_visits linkage settled (fun descends linked led holds ran =>
          ih descends linked led deep' holds ran) descends' deep' below holds' visited
        obtain ⟨_, _, there, _⟩ := descends''.under
        have body : execute interpreter m ⟨between.registry, between.world⟩ = (some result, last) := body
        rcases program_eq : program interpreter r m between.world with ⟨outcome, w'⟩
        rw [execute_at there linked, program_eq] at body
        cases body
        exact keeps.runs descends'' holds'' program_eq root
    · rw [visit_begun linkage settled here linked known waiting] at ran
      split at ran <;>
      · cases ran
        exact holds

end Steps
end Machine
end MixedModules
