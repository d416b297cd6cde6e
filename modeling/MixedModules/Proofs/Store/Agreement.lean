import MixedModules.Proofs.Store.Conformance

/-! The two checks of an import.

An import of a binary module is checked over declared types when its provider is binary
too, and over the value itself when the importer runs. The first check knows what a
resource was declared with and the second what has become of it, so what the first lets
through the second does as well. Globals and functions do not change their types: for them
the two come to the same. -/
namespace MixedModules.Store

variable {κ : Type} {s s' : Store κ} {kind : BindingKind} {type importType exportType : TypeSig}
  {value observed : Value}

/-- A type and what conforms to it are of one kind. -/
theorem Conforms.bindingKind_eq (conforms : s.Conforms type value) :
    type.bindingKind = value.bindingKind := by
  unfold Conforms at conforms
  split at conforms <;> first | rfl | exact conforms.elim

/-- What conforms to a type is observed under it as it is. -/
theorem Conforms.observe_self (conforms : s.Conforms type value) :
    s.observe type.bindingKind type value = .ok (value, s) := by
  unfold Conforms at conforms
  split at conforms
  · obtain ⟨global, known, same⟩ := conforms
    simp [TypeSig.bindingKind, observe, observeGlobal, known, same]
  · obtain ⟨memory, known, enough⟩ := conforms
    simp [TypeSig.bindingKind, observe, observeResource, limitsOf?, known, Except.toOption, enough]
  · obtain ⟨table, known, enough⟩ := conforms
    simp [TypeSig.bindingKind, observe, observeResource, limitsOf?, known, Except.toOption, enough]
  · obtain ⟨function, known, signed⟩ := conforms
    simp [TypeSig.bindingKind, observe, observeFunction, known, signed]
  · exact conforms.elim

/-- Something is observed only under a type and the kind of that type. -/
theorem kind_of_observe (ran : s.observe kind type value = .ok (observed, s')) :
    kind = type.bindingKind := by
  unfold observe at ran
  split at ran <;> first | rfl | cases ran

/-- A handle with a declared type is observed under those types that it conforms to. -/
theorem Conforms.conforms_of_observe (conforms : s.Conforms exportType value)
    (ran : s.observe kind importType value = .ok (observed, s')) : s.Conforms importType value := by
  have signed : ∀ f function, value = .function f → s.function f = .ok function →
      function.signature? ≠ none := by
    rintro f function rfl held none
    obtain ⟨function', type, held', signed⟩ := conforms.signed
    cases held.symm.trans held'
    rw [none] at signed
    cases signed
  obtain ⟨rfl, rfl⟩ := observe_handle conforms.handle signed ran
  exact (observe_spec ran).2

/-- Objects of one kind are refused where another kind is declared. -/
theorem Conforms.observe_error (conforms : s.Conforms exportType value)
    (apart : importType.bindingKind ≠ exportType.bindingKind) :
    ∃ reason, s.observe importType.bindingKind importType value = .error reason := by
  cases ran : s.observe importType.bindingKind importType value with
  | error reason => exact ⟨reason, rfl⟩
  | ok result =>
    have conforms' := conforms.conforms_of_observe ran
    exact absurd (conforms'.bindingKind_eq.trans conforms.bindingKind_eq.symm) apart

/-- Between two globals, and between two functions, the checks are one, down to the reason
of a refusal. -/
theorem Conforms.observe_eq_checkLink (conforms : s.Conforms exportType value)
    (same : importType.bindingKind = exportType.bindingKind)
    (fixed : importType.bindingKind = .global ∨ importType.bindingKind = .function) :
    s.observe importType.bindingKind importType value =
      (checkLink importType.bindingKind importType exportType.bindingKind exportType).map
        fun _ => (value, s) := by
  have kinds : ∀ k limits, importType ≠ .resource k limits := by
    rintro (_ | _) limits rfl <;> cases fixed <;> contradiction
  unfold Conforms at conforms
  split at conforms
  · obtain ⟨global, known, actual⟩ := conforms
    cases importType with
    | numeric expected =>
      by_cases fits : expected = global.type
      · simp [TypeSig.bindingKind, observe, observeGlobal, checkLink, known, ← actual, fits,
          Except.map]
      · simp [TypeSig.bindingKind, observe, observeGlobal, checkLink, known, ← actual, fits,
          Ne.symm fits, Except.map]
    | resource k limits => exact absurd rfl (kinds k limits)
    | none | function => cases same
  · cases importType with
    | resource k limits => exact absurd rfl (kinds k limits)
    | none | numeric | function => cases same
  · cases importType with
    | resource k limits => exact absurd rfl (kinds k limits)
    | none | numeric | function => cases same
  · obtain ⟨function, known, signed⟩ := conforms
    rename_i actual f
    cases importType with
    | function expected =>
      by_cases fits : expected = actual
      · simp [TypeSig.bindingKind, observe, observeFunction, checkLink, known, signed, fits,
          Except.map]
      · simp [TypeSig.bindingKind, observe, observeFunction, checkLink, known, signed, fits,
          Ne.symm fits, Except.map]
    | resource k limits => exact absurd rfl (kinds k limits)
    | none | numeric => cases same
  · exact conforms.elim

/-- What is let through over declared types is observed as it is, and so is everything that
was observed before. Over values no more is refused, except that a memory or a table may
have grown into what it was not declared with; a handle comes out as another one only if it
is a function that has no signature of its own. -/
theorem import_checks_agree (s : Store κ) :
    (∀ importKind importType exportKind exportType value, importKind = importType.bindingKind →
      exportKind = exportType.bindingKind → s.Conforms exportType value →
        (checkLink importKind importType exportKind exportType = .ok () →
          s.observe importKind importType value = .ok (value, s)) ∧
        ((importKind = exportKind → importKind = .global ∨ importKind = .function) →
          ∀ reason, checkLink importKind importType exportKind exportType = .error reason →
            ∃ reason', s.observe importKind importType value = .error reason' ∧
              (importKind = exportKind → reason' = reason))) ∧
    ∀ kind type value observed s', s.observe kind type value = .ok (observed, s') →
      s'.Conforms type observed ∧ s'.observe kind type observed = .ok (observed, s') ∧
      (value.bindingKind ≠ .value → (∀ f function, value = .function f →
        s.function f = .ok function → function.signature? ≠ none) → observed = value ∧ s' = s) := by
  refine ⟨?_, fun kind type value observed s' ran => ?_⟩
  · rintro _ importType _ exportType value rfl rfl conforms
    refine ⟨fun checked => (conforms.of_checkLink checked rfl rfl).observe_self,
      fun fixed reason refused => ?_⟩
    by_cases same : importType.bindingKind = exportType.bindingKind
    · refine ⟨reason, ?_, fun _ => rfl⟩
      rw [conforms.observe_eq_checkLink same (fixed same), refused]
      rfl
    · obtain ⟨reason', ran⟩ := conforms.observe_error same
      exact ⟨reason', ran, fun wrong => absurd wrong same⟩
  · have conforms := (observe_spec ran).2
    refine ⟨conforms, ?_, fun handle signed => observe_handle handle signed ran⟩
    rw [kind_of_observe ran]
    exact conforms.observe_self

/-- A memory of one page that grew to two, and a function without a signature. -/
def grown : Store Unit :=
  ⟨#[], #[⟨2, some 4, ∅⟩], #[], #[⟨"f", .host ()⟩], #[], #[]⟩

/-- A memory that is let through as declared is observed after it has grown, and an adapter
is observed as itself. -/
theorem import_checks_agree_grown :
    grown.observe .memory (.resource .memory ⟨1, some 8⟩) (.memory ⟨0⟩) =
      .ok (.memory ⟨0⟩, grown) ∧
    ∃ s', grown.observe .function (.function ⟨[.i32], []⟩) (.function ⟨0⟩) =
        .ok (.function ⟨1⟩, s') ∧
      s'.observe .function (.function ⟨[.i32], []⟩) (.function ⟨1⟩) = .ok (.function ⟨1⟩, s') := by
  have conforms : grown.Conforms (.resource .memory ⟨1, some 4⟩) (.memory ⟨0⟩) :=
    ⟨⟨2, some 4, ∅⟩, rfl, rfl⟩
  refine ⟨((import_checks_agree grown).1 .memory (.resource .memory ⟨1, some 8⟩) .memory
    (.resource .memory ⟨1, some 4⟩) (.memory ⟨0⟩) rfl rfl conforms).1 rfl, _, rfl, ?_⟩
  exact ((import_checks_agree grown).2 .function (.function ⟨[.i32], []⟩) (.function ⟨0⟩) _ _ rfl).2.1

end MixedModules.Store
