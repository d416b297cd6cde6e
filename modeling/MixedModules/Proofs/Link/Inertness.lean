import MixedModules.Proofs.Link.Linking
import MixedModules.Proofs.Store.Lasting

/-! Linking leaves objects alone.

To link a module is to give it slots, functions and an environment. Globals, memories and tables
are made when modules run. -/
namespace MixedModules

variable {κ : Type}

namespace Store

private theorem sameObjects_addSlot (s : Store κ) (slot : Slot) :
    s.SameObjects (s.addSlot slot).2 := ⟨rfl, rfl, rfl⟩

private theorem sameObjects_declareFunction (identity : String) (home : EnvironmentId)
    (state : Scope SlotId × Store κ) (decl : ExportDecl κ) :
    state.2.SameObjects (declareFunction identity home state decl).2 := by
  unfold declareFunction
  cases decl.source <;> exact ⟨rfl, rfl, rfl⟩

private theorem sameObjects_ownSlot (s : Store κ) (identity name : String) (locals : Scope SlotId) :
    s.SameObjects (s.ownSlot identity name locals).2.2 := by
  unfold ownSlot
  split <;> exact ⟨rfl, rfl, rfl⟩

private theorem sameObjects_exportSlot (identity : String) (kind : ModuleKind)
    (state : Bindings × Store κ) (decl : ExportDecl κ) :
    state.2.SameObjects (exportSlot identity kind state decl).2 := by
  obtain ⟨bindings, s⟩ := state
  simp only [exportSlot]
  split
  · exact s.sameObjects_ownSlot identity _ bindings.locals
  · split <;> exact .refl s
  all_goals exact ⟨rfl, rfl, rfl⟩

private theorem sameObjects_foldl {α β : Type} {step : α × Store κ → β → α × Store κ}
    (same : ∀ (state : α × Store κ) x, state.2.SameObjects (step state x).2) (xs : List β)
    (state : α × Store κ) : state.2.SameObjects (xs.foldl step state).2 := by
  induction xs generalizing state with
  | nil => exact .refl state.2
  | cons x rest ih => exact (same state x).trans (ih (step state x))

theorem sameObjects_allocate (s : Store κ) (identity : String) (record : Record κ) :
    s.SameObjects (s.allocate identity record).2 := by
  have declared := sameObjects_foldl (sameObjects_declareFunction identity ⟨s.environments.size⟩)
    record.exports ((.empty : Scope SlotId), s)
  unfold allocate
  simp only
  generalize record.exports.foldl (declareFunction identity _) _ = state at declared ⊢
  obtain ⟨locals, s₁⟩ := state
  have exported := sameObjects_foldl (sameObjects_exportSlot identity record.kind) record.exports
    (⟨locals, .empty⟩, s₁)
  exact (declared.trans exported).trans ⟨rfl, rfl, rfl⟩

end Store

namespace Links

variable {l l' : Links κ} {m : ModuleId}

private theorem sameObjects_stage (l : Links κ) (m : ModuleId) :
    l.store.SameObjects (l.stage m).store := by
  unfold stage
  split
  · exact .refl l.store
  · split
    · exact .refl l.store
    · exact l.store.sameObjects_allocate ..

private theorem sameObjects_resolveImports {importer : Instance κ} {decls : List ImportDecl}
    {bindings bindings' : Scope ImportBinding}
    (ran : resolveImports importer decls bindings l = .ok (bindings', l')) :
    l.store.SameObjects l'.store := by
  induction decls generalizing bindings l with
  | nil =>
    cases ran
    exact .refl l'.store
  | cons decl rest ih =>
    obtain ⟨⟨binding, between⟩, first, others⟩ := bind_eq_ok ran
    obtain ⟨_, _, _, _, _, _, _, _, _, rfl⟩ := resolveImport_eq_ok first
    have rest := ih others
    exact (l.store.sameObjects_addSlot _).trans rest

private theorem sameObjects_bindModule (ran : bindModule l m = .ok l') :
    l.store.SameObjects l'.store := by
  rcases bindModule_cases ran with rfl | ⟨i, e, imports, between, _, _, binds, rfl⟩
  · exact .refl l'.store
  · exact (sameObjects_resolveImports binds).trans ⟨rfl, rfl, rfl⟩

/-- To link a graph makes no object and changes none. -/
theorem sameObjects_of_link {g : ModuleGraph} (ran : link l g = .ok l') :
    l.store.SameObjects l'.store := by
  obtain ⟨_, bound, binds, rfl⟩ := link_eq_ok ran
  have staged (ms : List ModuleId) (l : Links κ) :
      l.store.SameObjects (ms.foldl stage l).store := by
    induction ms generalizing l with
    | nil => exact .refl l.store
    | cons m rest ih => exact (sameObjects_stage l m).trans (ih (l.stage m))
  have bindings (ms : List ModuleId) {l l' : Links κ} (ran : ms.foldlM bindModule l = .ok l') :
      l.store.SameObjects l'.store := by
    induction ms generalizing l with
    | nil =>
      cases ran
      exact .refl l'.store
    | cons m rest ih =>
      rw [List.foldlM_cons] at ran
      obtain ⟨between, first, others⟩ := bind_eq_ok ran
      exact (sameObjects_bindModule first).trans (ih others)
  have bound := bindings (l.pending g) binds
  exact (staged (l.pending g) l).trans bound

end Links
end MixedModules
