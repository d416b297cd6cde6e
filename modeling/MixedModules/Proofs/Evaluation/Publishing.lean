import MixedModules.Proofs.Evaluation.Writing

/-! When a binary module publishes its exports.

Publishing is the last thing that a binary module does, and it cannot fail halfway. So a run
that has not succeeded has published nothing, and whatever is there in the slot of an export
was put there when the module was instantiated without a failure. -/
namespace MixedModules

variable {κ σ : Type}

namespace World

variable {e : EnvironmentId} {environment : Environment} {record : Record κ} {body : BinaryBody κ}
  {w w' : World κ σ}

/-- What a binary module does before its exports are published. -/
def furnish (calls : Calls κ σ) (e : EnvironmentId) (body : BinaryBody κ) : Run (World κ σ) Unit := do
  let environment ← reading fun s => s.environment e
  observeImports e environment
  define calls e environment.identity body

/-- The exports of a binary module come last. -/
theorem runModule_binary_eq (interpreter : Interpreter κ σ) (e : EnvironmentId)
    (shape : record.body = .binary body) : runModule interpreter e record =
      (furnish interpreter.calls e body >>= fun _ => change (Store.publishAll e record.exports)) := by
  unfold runModule furnish
  simp only [shape, instantiate_eq, bind_assoc]

/-- Before its exports are published a module fills the slots of its captured imports only. -/
theorem fitted_furnish (interpreter : Interpreter κ σ) (shape : record.body = .binary body)
    (distinct : (environment.entitled record).Nodup) (apart : environment.reserved.Nodup) :
    Fitted e environment (environment.entitled record) (environment.imports.values.map (·.own))
      (furnish interpreter.calls e body) := by
  have apart := (List.nodup_append.mp apart).1
  refine .after (.reading _) (fun there w w' shows ran => ?_) distinct apart
  obtain ⟨known, _⟩ := reading_eq_ok ran
  obtain ⟨entities, known'⟩ := shows
  cases (Store.environment_eq_ok.mp known).symm.trans known'
  unfold Environment.entitled Record.defined at distinct ⊢
  rw [shape] at distinct ⊢
  have observes : Fitted e environment (environment.imports.values.map (·.localName))
      (environment.imports.values.map (·.own))
      (observeImports e { environment with entities } : Run (World κ σ) Unit) :=
    fitted_observeImports (List.nodup_append.mp distinct).1 apart
  have all := List.append_nil (environment.imports.values.map (·.own))
  rw [← all] at apart ⊢
  exact observes.bind (fun _ _ _ _ _ => fitted_define interpreter _ (List.nodup_append.mp distinct).2.1)
    distinct apart

/-- A run that has not succeeded has published nothing. -/
theorem fills_of_unfinished (interpreter : Interpreter κ σ) (shape : record.body = .binary body)
    (distinct : (environment.entitled record).Nodup) (apart : environment.reserved.Nodup)
    (shows : w.store.Shows e environment)
    (vacant : w.store.Vacant e (environment.entitled record) (environment.imports.values.map (·.own)))
    {outcome : Option (Except EvalError Unit)} (unfinished : outcome ≠ some (.ok ()))
    (ran : runModule interpreter e record w = (outcome, w')) :
    w.store.Fills e (environment.entitled record) (environment.imports.values.map (·.own)) w'.store := by
  have furnished := (fitted_furnish interpreter shape distinct apart w shows vacant).fills
  rw [runModule_binary_eq interpreter e shape, Run.bind_apply] at ran
  rcases result : furnish interpreter.calls e body w with ⟨_ | _ | _, w₁⟩ <;>
    rw [result] at ran furnished
  · cases ran
    exact furnished
  · cases ran
    exact furnished
  · unfold World.change at ran
    cases published : Store.publishAll e record.exports w₁.store with
    | error _ =>
      simp only [published] at ran
      cases ran
      exact furnished
    | ok _ =>
      simp only [published] at ran
      cases ran
      exact absurd rfl unfinished

/-- A module that was instantiated has published its exports. -/
theorem Instantiated.published {interpreter : Interpreter κ σ} {events : List (Store κ)}
    (instantiated : Instantiated interpreter.calls e record events) :
    ∃ later s s' past, s.Publishes e record s' ∧ events = later ++ s' :: s :: past := by
  obtain ⟨_, environment, w, w', _, ordered, present, ran, rfl⟩ := instantiated
  obtain ⟨_, s, s', later, past, publishes, rfl, events⟩ :=
    tells_instantiate interpreter w () w' ordered ⟨environment.entities, present⟩ ran
  exact ⟨later, s, s', past, publishes, by simpa using events⟩

end World

namespace Store

variable {interpreter : Interpreter κ σ} {homes : EnvironmentId → Record κ → Prop}
  {past : List (Store κ)} {s : Store κ} {e : EnvironmentId} {environment : Environment} {i : SlotId}
  {value : Value}

/-- What is in the slot of an export of a binary module was published when the module was
instantiated. -/
theorem Lineage.instantiated (lineage : Lineage interpreter homes (s :: past))
    (kinds : ∀ s' ∈ s :: past, ∀ e record environment, homes e record →
      s'.environment? e = some environment → environment.kind = record.kind)
    (present : s.environment? e = some environment) (member : i ∈ environment.published)
    (read : s.readSlot i = .ok value) : ∃ record events, homes e record ∧ events <:+ s :: past ∧
      World.Instantiated interpreter.calls e record events := by
  generalize whole : s :: past = events at lineage
  induction lineage generalizing s past environment value with
  | start =>
    cases whole
    cases present
  | @step s₀ s₁ past₀ before moves ih =>
    cases whole
    have reserved := before.reserved s₀ List.mem_cons_self
    have mine : i ∈ environment.reserved := List.mem_append_right _ member
    cases earlier : s₀.environment? e with
    | none =>
      rcases moves.fills_or_laid with ⟨_, _, _, fills⟩ | ⟨laid, _⟩
      · obtain ⟨there, before', _⟩ := fills.environments e environment present
        cases earlier.symm.trans before'
      -- When its module is linked a slot is empty.
      · obtain ⟨slot, known, held⟩ := readSlot_eq_ok read
        rw [Slot.value?, (laid.fresh e environment present earlier).2 i mine slot known] at held
        cases held
    | some environment₀ =>
      obtain ⟨entities, kept⟩ := moves.grows.environments e environment₀ earlier
      cases present.symm.trans kept
      obtain ⟨slot, known⟩ := reserved.inside e environment₀ i earlier mine
      obtain ⟨content, known', writes⟩ := moves.writes known
      obtain ⟨slot', there, held⟩ := readSlot_eq_ok read
      cases known'.symm.trans there
      rcases slot with ⟨owner, name, kind, type, content₀⟩
      have unassigned := reserved.kept e environment₀ i earlier mine
      cases writes with
      | kept =>
        obtain ⟨record, events, home, onward, instantiated⟩ := ih
          (fun s' told => kinds s' (List.mem_cons_of_mem _ told)) earlier member
          (readSlot_of_value known held) rfl
        exact ⟨record, events, home, onward.trans (List.suffix_cons _ _), instantiated⟩
      | assigned _ _ present' own => exact absurd ⟨_, _, present', mem_values_of_get? own⟩ unassigned
      | closed => cases held
      | captured _ present' member' own =>
        subst own
        have apart := reserved.not_published_own present' member' earlier
        exact absurd member apart
      | @published e' record environment' _ _ home present' member' instantiated =>
        have binary : environment'.kind = .binary :=
          (kinds s₀ (by simp) _ _ _ home present').trans instantiated.binary
        have theirs : i ∈ environment'.published := by
          rwa [Environment.published_of_binary binary]
        obtain rfl := reserved.own e' e environment' environment₀ i present' earlier
          (List.mem_append_right _ theirs) mine
        exact ⟨record, _, home, List.suffix_refl _, instantiated⟩

end Store
end MixedModules
