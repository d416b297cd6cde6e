import Mathlib.Data.List.Induction
import MixedModules.Proofs.History.Orderly
import MixedModules.Proofs.Registry.Lookup

/-! No identity is registered twice.

A build registers a module only where a lookup has found none, and no other call registers any.
So identities are distinct after every history, whatever the loader hands over. -/
namespace MixedModules

variable {κ σ ℓ α β : Type}

namespace Loads

variable {resolver : Specifier.Resolver} {loader : Loader κ ℓ} {identity : String}
  {stock after : Stock κ ℓ}

/-- A load registers a module, or it fails and leaves the registry as it was. -/
theorem load_cases {result : Except Stop ModuleId}
    (ran : (load loader identity).outcome stock = (result, after)) :
    (∃ record, result = .ok (stock.registry.register identity record).1 ∧
      after.registry = (stock.registry.register identity record).2) ∨
    ((∃ reason, result = .error reason) ∧ after.registry = stock.registry) := by
  rw [outcome_load] at ran
  generalize loader identity stock.source = handed at ran
  rcases handed with ⟨record | message | message | _, source⟩
  · simp only at ran
    cases check : record.validate with
    | ok _ =>
      simp only [check] at ran
      cases ran
      exact .inl ⟨record, rfl, rfl⟩
    | error fault =>
      simp only [check] at ran
      cases ran
      exact .inr ⟨⟨_, rfl⟩, rfl⟩
  all_goals
    cases ran
    exact .inr ⟨⟨_, rfl⟩, rfl⟩

/-- A computation does not register an identity that is registered. -/
def Distinguishes (x : Loads κ ℓ α) : Prop :=
  ∀ stock, stock.registry.Distinct → (x.outcome stock).2.registry.Distinct

namespace Distinguishes

theorem pure (a : α) : Distinguishes (pure a : Loads κ ℓ α) := fun _ distinct => distinct

theorem throw (reason : Stop) : Distinguishes (throw reason : Loads κ ℓ α) :=
  fun _ distinct => distinct

theorem bind {x : Loads κ ℓ α} {f : α → Loads κ ℓ β} (first : Distinguishes x)
    (next : ∀ a, Distinguishes (f a)) : Distinguishes (x >>= f) := by
  intro stock distinct
  rw [outcome_bind]
  have held := first stock distinct
  rcases result : x.outcome stock with ⟨reason | a, between⟩
  · rw [result] at held
    exact held
  · rw [result] at held
    exact next a between held

theorem attempt {x : Loads κ ℓ α} (distinguishes : Distinguishes x) : Distinguishes x.attempt :=
  fun stock distinct => distinguishes stock distinct

theorem mapM {f : α → Loads κ ℓ β} (each : ∀ a, Distinguishes (f a)) (xs : List α) :
    Distinguishes (xs.mapM f) := by
  induction xs with
  | nil =>
    rw [List.mapM_nil]
    exact pure []
  | cons a rest ih =>
    rw [List.mapM_cons]
    exact (each a).bind fun b => ih.bind fun bs => pure (b :: bs)

theorem foldlM {f : β → α → Loads κ ℓ β} (each : ∀ b a, Distinguishes (f b a)) (xs : List α)
    (b : β) : Distinguishes (xs.foldlM f b) := by
  induction xs generalizing b with
  | nil => exact pure b
  | cons a rest ih =>
    rw [List.foldlM_cons]
    exact (each b a).bind fun b => ih b

theorem get : Distinguishes (get : Loads κ ℓ (Stock κ ℓ)) := fun _ distinct => distinct

theorem obtain (identity : String) : Distinguishes (obtain loader identity) := by
  intro stock distinct
  rw [outcome_obtain]
  cases found : stock.registry.lookup identity with
  | some m => exact distinct
  | none =>
    rcases ran : (load loader identity).outcome stock with ⟨result, after⟩
    rcases load_cases ran with ⟨record, _, registered⟩ | ⟨_, same⟩
    · rw [registered]
      exact distinct.register found
    · rw [same]
      exact distinct

theorem instanceOf (m : ModuleId) : Distinguishes (instanceOf m : Loads κ ℓ (Instance κ)) := by
  unfold Loads.instanceOf
  refine get.bind fun stock => ?_
  split
  · exact pure _
  · exact throw _

theorem resolve (specifier : String) (referrer : Option String) :
    Distinguishes (resolve resolver specifier referrer : Loads κ ℓ String) := by
  unfold Loads.resolve
  split
  · exact pure _
  · exact throw _

theorem setDependencies (m : ModuleId) (dependencies : Dependencies) :
    Distinguishes (modify fun stock => { stock with
      registry := stock.registry.setDependencies m dependencies } : Loads κ ℓ PUnit) := by
  refine fun stock distinct => distinct.transfer fun x identity bears => ?_
  obtain ⟨i, known, named⟩ := bears
  have known : (stock.registry.setDependencies m dependencies).get? x = some i := known
  rw [Registry.setDependencies, Registry.get?_modify] at known
  split at known
  · obtain ⟨before, there, rfl⟩ := Option.map_eq_some_iff.mp known
    exact ⟨before, there, named⟩
  · exact ⟨i, known, named⟩

theorem expand (m : ModuleId) : Distinguishes (expand resolver loader m) := by
  unfold Loads.expand
  refine (instanceOf m).bind fun i => ?_
  split
  · exact pure _
  · refine (mapM (fun specifier => ?_) _).bind fun dependencies =>
      (setDependencies m dependencies).bind fun _ => pure _
    exact (resolve specifier _).bind fun identity => (obtain identity).bind fun _ => pure _

theorem expandAll (concurrency : Nat) (round : List ModuleId) :
    Distinguishes (expandAll resolver loader concurrency round) := by
  unfold Loads.expandAll
  split
  · exact mapM (fun m => expand m) round
  · refine (mapM (fun piece => ?_) _).bind fun results => pure _
    refine (mapM (fun m => ?_) piece).bind fun results => mapM (fun result => ?_) results
    · unfold expandBeside
      refine (expand m).attempt.bind fun result => ?_
      split
      · exact get.bind fun stock => pure _
      · exact pure _
    · cases result with
      | ok dependencies => exact pure dependencies
      | error reason => exact throw reason

theorem connectAll (limit : Nat) (graph : ModuleGraph) (edges : List (ModuleId × Dependencies)) :
    Distinguishes (Growth.connectAll limit graph edges : Loads κ ℓ Growth) := by
  unfold Growth.connectAll
  refine foldlM (fun growth edge => ?_) edges _
  refine foldlM (fun growth target => ?_) _ growth
  unfold Growth.connect
  dsimp only
  split
  · exact (pure growth).bind fun _ => pure _
  · split
    · exact (throw _).bind fun _ => pure _
    · exact (instanceOf target).bind fun i => (pure _).bind fun _ => pure _

theorem grow (limits : BuildLimits) (rounds : Nat) (graph : ModuleGraph) (round : List ModuleId) :
    Distinguishes (graph.grow resolver loader limits rounds round) := by
  induction rounds generalizing graph round with
  | zero =>
    cases round with
    | nil => exact pure graph
    | cons m rest => exact throw _
  | succ rounds ih =>
    cases round with
    | nil => exact pure graph
    | cons m rest =>
      rw [ModuleGraph.grow]
      · exact (expandAll limits.concurrency (m :: rest)).bind fun expanded =>
          (connectAll limits.maxModules graph _).bind fun growth => ih growth.graph growth.found
      · simp

/-- A build registers no identity that is registered. -/
theorem build (limits : BuildLimits) (entry : String) :
    Distinguishes (ModuleGraph.build resolver loader limits entry) := by
  unfold ModuleGraph.build
  exact (resolve entry none).bind fun identity => (obtain identity).bind fun m =>
    (instanceOf m).bind fun i => grow limits _ _ [m]

end Distinguishes
end Loads

namespace Site

variable {setup : Setup κ σ ℓ} {site : Site κ σ ℓ}

/-- No call registers an identity that is registered. -/
theorem Orderly.distinct_make (orderly : Orderly setup site) (distinct : site.registry.Distinct)
    (call : Call κ σ ℓ) : (site.make setup call).registry.Distinct := by
  cases call with
  | build entry =>
    exact Loads.Distinguishes.build setup.limits entry ⟨site.registry, site.source⟩ distinct
  | link n =>
    rcases Orderly.link_cases setup site n with same | ⟨g, links, member, ran, made⟩
    · rwa [same]
    · rw [made]
      have joined := (Links.joined_of_link orderly.linkage (orderly.graphs g member) ran).1
      refine distinct.transfer fun m _ ⟨i, known, named⟩ => ?_
      obtain ⟨environment, component, change⟩ := joined.reassigned m
      obtain ⟨before, there, rfl⟩ := Option.map_eq_some_iff.mp (change.symm.trans known)
      exact ⟨before, there, named⟩
  | evaluate n =>
    rcases Orderly.evaluate_cases setup site n with same | ⟨l, outcome, machine, member, ran, made⟩
    · rwa [same]
    · rw [made]
      cases outcome with
      | none => exact distinct
      | some result =>
        have same := ((orderly.evaluated member ran).advanced result rfl).same
        refine distinct.transfer fun m _ ⟨i, known, named⟩ => ?_
        obtain ⟨progress, change⟩ := same.modules m
        obtain ⟨before, there, rfl⟩ := Option.map_eq_some_iff.mp (change.symm.trans known)
        exact ⟨before, there, named⟩
  | act program => exact distinct
  | restock source => exact distinct

/-- After every history, each identity is registered once. -/
theorem distinct_of_run (setup : Setup κ σ ℓ) (memo : σ) (source : ℓ) (calls : List (Call κ σ ℓ)) :
    ((Site.start memo source).run setup calls).registry.Distinct := by
  induction calls using List.reverseRecOn with
  | nil =>
    intro m _ i _ known
    cases known
  | append_singleton calls call ih =>
    rw [run, List.foldl_append]
    exact (Orderly.of_run setup memo source calls).distinct_make ih call

end Site
end MixedModules
