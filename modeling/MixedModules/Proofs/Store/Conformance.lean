import MixedModules.Proofs.Store.Growth

/-! Values that conform to declared types.

A handle conforms to a type when the object it refers to does. Growth keeps it so,
what a binary module observes conforms to what it declares, and what the link check
lets through under one type conforms to the other. -/
namespace MixedModules.Store

variable {κ : Type} {s s' : Store κ} {kind : BindingKind} {type : TypeSig} {value : Value}

/-- The object that a value refers to has a given type. -/
def Conforms (s : Store κ) : TypeSig → Value → Prop
  | .numeric type, .global g => ∃ global, s.global g = .ok global ∧ global.type = type
  | .resource .memory limits, .memory m =>
    ∃ memory, s.memory m = .ok memory ∧ memory.limits.satisfies limits = true
  | .resource .table limits, .table t =>
    ∃ table, s.table t = .ok table ∧ table.limits.satisfies limits = true
  | .function type, .function f =>
    ∃ function, s.function f = .ok function ∧ function.signature? = some type
  | _, _ => False

/-- An export without a type is not let through. -/
theorem checkLink_typed {importKind exportKind : BindingKind} {importType exportType : TypeSig}
    (checked : checkLink importKind importType exportKind exportType = .ok ()) :
    exportType ≠ .none := by
  rintro rfl
  unfold checkLink at checked
  split at checked
  · cases checked
  · cases importType <;> cases checked

namespace Conforms

/-- A value conforms in a later store to what it conforms to now. -/
theorem kept (conforms : s.Conforms type value) (keeps : s.Keeps s') :
    s'.Conforms type value := by
  unfold Conforms at conforms ⊢
  split at conforms
  · obtain ⟨global, known, same⟩ := conforms
    obtain ⟨global', known', same'⟩ := keeps.globals _ global known
    exact ⟨global', known', same'.trans same⟩
  · obtain ⟨memory, known, more⟩ := conforms
    obtain ⟨memory', known', more'⟩ := keeps.memories _ memory known
    exact ⟨memory', known', Limits.satisfies_trans more' more⟩
  · obtain ⟨table, known, more⟩ := conforms
    obtain ⟨table', known', more'⟩ := keeps.tables _ table known
    exact ⟨table', known', Limits.satisfies_trans more' more⟩
  · obtain ⟨function, known, same⟩ := conforms
    exact ⟨function, keeps.functions _ function known, same⟩
  · cases conforms

/-- What conforms to an exported type conforms to every import that was checked
against it. -/
theorem of_checkLink {importKind exportKind : BindingKind} {importType exportType : TypeSig}
    (checked : checkLink importKind importType exportKind exportType = .ok ())
    (importFits : importKind = importType.bindingKind)
    (exportFits : exportKind = exportType.bindingKind)
    (conforms : s.Conforms exportType value) : s.Conforms importType value := by
  unfold checkLink at checked
  split at checked
  · cases checked
  rename_i agree
  rw [not_ne_iff, importFits, exportFits] at agree
  split at checked
  · split at checked
    · rename_i same
      exact same ▸ conforms
    · cases checked
  · rename_i kind required kind' actual
    have same : kind = kind' := by
      cases kind <;> cases kind' <;> first | rfl | cases agree
    subst same
    split at checked
    · rename_i enough
      cases kind with
      | memory =>
        cases value <;> try cases conforms
        rename_i memory known
        exact ⟨memory, known.1, Limits.satisfies_trans known.2 enough⟩
      | table =>
        cases value <;> try cases conforms
        rename_i table known
        exact ⟨table, known.1, Limits.satisfies_trans known.2 enough⟩
    · cases checked
  · split at checked
    · rename_i same
      exact same ▸ conforms
    · cases checked
  · cases checked

end Conforms

/-! ## What is observed -/

private theorem observeGlobal_spec {expected : GlobalType} {observed : Value}
    (ran : s.observeGlobal expected value = .ok (observed, s')) :
    s.SameBindings s' ∧ s'.Conforms (.numeric expected) observed := by
  unfold observeGlobal at ran
  split at ran
  · split at ran
    · rename_i g global held
      split at ran
      · rename_i same
        cases ran
        exact ⟨.refl s, global, held, same⟩
      · cases ran
    · cases ran
  · unfold globalOfPlain at ran
    split at ran
    · cases ran
    · simp only at ran
      split at ran
      all_goals first | cases ran | skip
      all_goals
        split at ran
        · split at ran
          · rename_i made
            cases ran
            exact sameBindings_newGlobal made
          · cases ran
        · cases ran

private theorem observeResource_spec {resource : ResourceKind} {required : Limits}
    {observed : Value} (ran : s.observeResource resource required value = .ok (observed, s')) :
    s.SameBindings s' ∧ s'.Conforms (.resource resource required) observed := by
  unfold observeResource at ran
  split at ran
  · rename_i actual found
    split at ran
    · rename_i enough
      cases ran
      refine ⟨.refl s, ?_⟩
      unfold limitsOf? at found
      split at found
      · rename_i m
        cases held : s.memory m with
        | error e => simp [held, Except.toOption] at found
        | ok memory =>
          rw [held] at found
          cases found
          exact ⟨memory, held, enough⟩
      · rename_i t
        cases held : s.table t with
        | error e => simp [held, Except.toOption] at found
        | ok table =>
          rw [held] at found
          cases found
          exact ⟨table, held, enough⟩
      · cases found
    · cases ran
  · cases ran

private theorem observeFunction_spec {expected : FuncType} {observed : Value}
    (ran : s.observeFunction expected value = .ok (observed, s')) :
    s.SameBindings s' ∧ s'.Conforms (.function expected) observed := by
  unfold observeFunction at ran
  split at ran
  · rename_i f
    cases held : s.function f with
    | error e =>
      rw [held] at ran
      cases ran
    | ok function =>
      rw [held] at ran
      simp only at ran
      cases signature : function.signature? with
      | some actual =>
        rw [signature] at ran
        simp only at ran
        split at ran
        · rename_i same
          cases ran
          exact ⟨.refl s, function, held, signature.trans (congrArg some same)⟩
        · cases ran
      | none =>
        rw [signature] at ran
        cases ran
        refine ⟨sameBindings_addFunction s function.name nofun ?_, _,
          function_addFunction s function.name (.adapter expected f), rfl⟩
        rintro _ _ ⟨⟩
        exact ⟨function, held, signature⟩
  · cases ran

/-- What a binary module observes conforms to what it declares, and nothing but the
object that may be made for it is new. -/
theorem observe_spec {observed : Value} (ran : s.observe kind type value = .ok (observed, s')) :
    s.SameBindings s' ∧ s'.Conforms type observed := by
  unfold observe at ran
  split at ran
  · exact observeGlobal_spec ran
  · exact observeResource_spec ran
  · exact observeResource_spec ran
  · exact observeFunction_spec ran
  · cases ran

/-! ## Handles are observed as they are -/

section Handles

variable {later : Store κ} {observed : Value}

/-- Only handles have a declared type. -/
theorem Conforms.handle {type : TypeSig} (conforms : s.Conforms type value) :
    value.bindingKind ≠ .value := by
  unfold Conforms at conforms
  split at conforms <;> first | exact conforms.elim | simp [Value.bindingKind]

/-- A function that has a declared type has a signature. -/
theorem Conforms.signed {type : TypeSig} {f : FunctionId} (conforms : s.Conforms type (.function f)) :
    ∃ function signature, s.function f = .ok function ∧ function.signature? = some signature := by
  cases type with
  | function type =>
    obtain ⟨function, known, signed⟩ := conforms
    exact ⟨function, type, known, signed⟩
  | resource kind => cases kind <;> exact conforms.elim
  | none | numeric => exact conforms.elim

private theorem observeGlobal_handle {expected : GlobalType} (handle : value.bindingKind ≠ .value)
    (ran : s.observeGlobal expected value = .ok (observed, s')) : observed = value ∧ s' = s := by
  unfold observeGlobal at ran
  split at ran
  · split at ran
    · split at ran
      · cases ran
        exact ⟨rfl, rfl⟩
      · cases ran
    · cases ran
  · unfold globalOfPlain at ran
    split at ran
    · cases ran
    · simp only at ran
      split at ran <;> first | exact absurd rfl handle | cases ran

theorem observeResource_eq {resource : ResourceKind} {required : Limits}
    (ran : s.observeResource resource required value = .ok (observed, s')) :
    observed = value ∧ s' = s := by
  unfold observeResource at ran
  split at ran
  · split at ran
    · cases ran
      exact ⟨rfl, rfl⟩
    · cases ran
  · cases ran

/-- An adapter is made for a function without a signature. -/
private theorem observeFunction_eq {expected : FuncType}
    (signed : ∀ f function, value = .function f → s.function f = .ok function →
      function.signature? ≠ none)
    (ran : s.observeFunction expected value = .ok (observed, s')) :
    observed = value ∧ s' = s := by
  unfold observeFunction at ran
  split at ran
  · next f =>
    split at ran
    · next function held =>
      split at ran
      · split at ran
        · cases ran
          exact ⟨rfl, rfl⟩
        · cases ran
      · next none => exact absurd none (signed f function rfl held)
    · cases ran
  · cases ran

/-- A handle is observed as it is, and nothing is made for it, unless it is a function
without a signature. -/
theorem observe_handle (handle : value.bindingKind ≠ .value)
    (signed : ∀ f function, value = .function f → s.function f = .ok function →
      function.signature? ≠ none)
    (ran : s.observe kind type value = .ok (observed, s')) : observed = value ∧ s' = s := by
  unfold observe at ran
  split at ran
  · exact observeGlobal_handle handle ran
  · exact observeResource_eq ran
  · exact observeResource_eq ran
  · exact observeFunction_eq signed ran
  · cases ran

/-- A handle that has a declared type, now or later, is observed as it is. -/
theorem Conforms.observe_eq {type type' : TypeSig} {kind : BindingKind}
    (conforms : later.Conforms type' value) (keeps : s.Keeps later)
    (ran : s.observe kind type value = .ok (observed, s')) : observed = value := by
  refine (observe_handle conforms.handle (fun f function same held none => ?_) ran).1
  subst same
  obtain ⟨function', type, held', signed⟩ := conforms.signed
  cases (keeps.functions f function held).symm.trans held'
  rw [none] at signed
  cases signed

end Handles

/-! ## Operations -/

theorem reading_eq_ok {α : Type} {read : Store κ → Except EvalError α} {a : α}
    (ran : Operation.reading read s = .ok (a, s')) : read s = .ok a ∧ s' = s := by
  unfold Operation.reading at ran
  cases result : read s with
  | error e =>
    rw [result] at ran
    cases ran
  | ok found =>
    rw [result] at ran
    cases ran
    exact ⟨rfl, rfl⟩

private theorem sameBindings_reading {α : Type} {read : Store κ → Except EvalError α} {a : α}
    (ran : Operation.reading read s = .ok (a, s')) : s.SameBindings s' := by
  obtain ⟨_, rfl⟩ := reading_eq_ok ran
  exact .refl s'

/-- An operation is an assignment or leaves all slots and environments alone. -/
theorem sameBindings_perform {o : Operation κ} {a : o.Answer} (ran : o.perform s = .ok (a, s'))
    (not : ∀ e name value, o ≠ .assign e name value) : s.SameBindings s' := by
  cases o with
  | readGlobal | memoryLimits | readMemory | loadMemory | tableLimits | readTable | readFunction
  | describe | moduleKind | readName | readImport | readEntity | readEntityOf =>
    rw [Operation.perform] at ran
    exact sameBindings_reading ran
  | newGlobal => exact (sameBindings_newGlobal ran).1
  | writeGlobal => exact sameBindings_writeGlobal ran
  | newMemory => exact (sameBindings_newMemory ran).1
  | growMemory => exact sameBindings_growMemory ran
  | writeMemory => exact sameBindings_writeMemory ran
  | newTable => exact (sameBindings_newTable ran).1
  | writeTable => exact sameBindings_writeTable ran
  | growTable => exact sameBindings_growTable ran
  | newHost name code =>
    cases ran
    exact sameBindings_addFunction s name nofun nofun
  | newClosure home name code =>
    cases ran
    exact sameBindings_addFunction s name nofun nofun
  | observe kind type value =>
    unfold Operation.perform at ran
    simp only at ran
    cases result : s.observe kind type value with
    | error reason =>
      rw [result] at ran
      cases ran
      exact .refl s
    | ok pair =>
      rw [result] at ran
      cases ran
      exact (observe_spec result).1
  | assign e name value => exact absurd rfl (not e name value)

theorem grows_perform {o : Operation κ} {a : o.Answer} (ran : o.perform s = .ok (a, s')) :
    s.Grows s' := by
  by_cases assigns : ∃ e name value, o = .assign e name value
  · obtain ⟨e, name, value, rfl⟩ := assigns
    exact grows_assign ran
  · exact (sameBindings_perform ran fun e name value same => assigns ⟨e, name, value, same⟩).grows

end MixedModules.Store
