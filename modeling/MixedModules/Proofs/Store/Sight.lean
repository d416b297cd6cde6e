import MixedModules.Proofs.Store.Conformance

/-! What a binary module is shown for a value.

It depends on nothing but the value and the object behind it: the value itself is shown, or
something is made for it whose contents are settled beforehand, or it is refused. Only the
place of what is made depends on what else there is. -/
namespace MixedModules

/-- What is shown for a value: the value, or a global or an adapter that is made for it. -/
inductive Sight (κ : Type) where
  | kept (value : Value)
  | global (made : Global)
  | adapter (made : Function κ)

namespace Sight

variable {κ : Type}

/-- Something is made. -/
def Fresh : Sight κ → Prop
  | kept _ => False
  | global _ | adapter _ => True

end Sight

namespace Store

variable {κ : Type} {s t : Store κ}

/-- The value that is shown, with the store in which what is made for it lives. -/
def place (s : Store κ) : Sight κ → Value × Store κ
  | .kept value => (value, s)
  | .global made => (.global ⟨s.globals.size⟩, { s with globals := s.globals.push made })
  | .adapter made => (.function ⟨s.functions.size⟩, { s with functions := s.functions.push made })

/-- The object behind a value is in both stores the same. -/
def SameBehind (s t : Store κ) : Value → Prop
  | .global g => t.global g = s.global g
  | .memory m => t.memory m = s.memory m
  | .table i => t.table i = s.table i
  | .function f => t.function f = s.function f
  | _ => True

theorem SameBehind.refl (s : Store κ) (value : Value) : s.SameBehind s value := by
  cases value <;> trivial

theorem SameBehind.symm {value : Value} (same : s.SameBehind t value) : t.SameBehind s value := by
  cases value with
  | global | memory | table | function => exact Eq.symm same
  | undefined | null | bool | number | bigint | string => trivial

private theorem exists_sight_plain (expected : GlobalType) (value : Value) :
    ∃ sight : Except Incompatibility (Sight κ), ∀ t : Store κ,
      t.globalOfPlain expected value = sight.map t.place := by
  unfold globalOfPlain newGlobal
  split
  · exact ⟨.error _, fun _ => rfl⟩
  · simp only
    split
    all_goals first
      | exact ⟨.error _, fun _ => rfl⟩
      | split
        · next raw _ =>
          cases Global.new expected raw with
          | ok global => exact ⟨.ok (.global global), fun _ => rfl⟩
          | error => exact ⟨.error _, fun _ => rfl⟩
        · exact ⟨.error _, fun _ => rfl⟩

private theorem exists_sight_global (s : Store κ) (expected : GlobalType) (value : Value) :
    ∃ sight : Except Incompatibility (Sight κ), ∀ t, s.SameBehind t value →
      t.observeGlobal expected value = sight.map t.place := by
  unfold observeGlobal
  split
  · next g =>
    cases known : s.global g with
    | error e =>
      refine ⟨.error (.notNumeric expected.value (Value.global g).typeName), fun t same => ?_⟩
      have same : t.global g = _ := same.trans known
      simp only [same]
      rfl
    | ok global =>
      by_cases fits : global.type = expected
      · refine ⟨.ok (.kept (.global g)), fun t same => ?_⟩
        have same : t.global g = _ := same.trans known
        simp only [same, if_pos fits]
        rfl
      · refine ⟨.error (.globalType expected global.type), fun t same => ?_⟩
        have same : t.global g = _ := same.trans known
        simp only [same, if_neg fits]
        rfl
  · obtain ⟨sight, shows⟩ := exists_sight_plain expected value
    exact ⟨sight, fun t _ => shows t⟩

private theorem limitsOf?_same {kind : ResourceKind} {value : Value} (same : s.SameBehind t value) :
    t.limitsOf? kind value = s.limitsOf? kind value := by
  cases kind <;> cases value <;> simp_all [limitsOf?, SameBehind]

private theorem exists_sight_resource (s : Store κ) (kind : ResourceKind) (required : Limits)
    (value : Value) : ∃ sight : Except Incompatibility (Sight κ), ∀ t, s.SameBehind t value →
      t.observeResource kind required value = sight.map t.place := by
  unfold observeResource
  cases known : s.limitsOf? kind value with
  | none =>
    refine ⟨.error (.notResource kind value.typeName), fun t same => ?_⟩
    rw [(limitsOf?_same same).trans known]
    rfl
  | some actual =>
    by_cases fits : actual.satisfies required
    · refine ⟨.ok (.kept value), fun t same => ?_⟩
      rw [(limitsOf?_same same).trans known]
      exact if_pos fits
    · refine ⟨.error (.limits kind required actual), fun t same => ?_⟩
      rw [(limitsOf?_same same).trans known]
      exact if_neg fits

private theorem exists_sight_function (s : Store κ) (expected : FuncType) (value : Value) :
    ∃ sight : Except Incompatibility (Sight κ), ∀ t, s.SameBehind t value →
      t.observeFunction expected value = sight.map t.place := by
  cases value with
  | function f =>
    unfold observeFunction
    cases known : s.function f with
    | error e =>
      refine ⟨.error (.notCallable (Value.function f).typeName), fun t same => ?_⟩
      have same : t.function f = _ := same.trans known
      simp only [same]
      rfl
    | ok function =>
      cases signed : function.signature? with
      | none =>
        refine ⟨.ok (.adapter ⟨function.name, .adapter expected f⟩), fun t same => ?_⟩
        have same : t.function f = _ := same.trans known
        simp only [same, signed]
        rfl
      | some actual =>
        by_cases fits : actual = expected
        · refine ⟨.ok (.kept (.function f)), fun t same => ?_⟩
          have same : t.function f = _ := same.trans known
          simp only [same, signed, if_pos fits]
          rfl
        · refine ⟨.error (.signature expected actual), fun t same => ?_⟩
          have same : t.function f = _ := same.trans known
          simp only [same, signed, if_neg fits]
          rfl
  | _ => exact ⟨.error (.notCallable _), fun _ _ => rfl⟩

/-- What is shown for a value is the same wherever the object behind it is. -/
theorem exists_sight (s : Store κ) (kind : BindingKind) (type : TypeSig) (value : Value) :
    ∃ sight : Except Incompatibility (Sight κ), ∀ t, s.SameBehind t value →
      t.observe kind type value = sight.map t.place := by
  unfold observe
  split
  · exact exists_sight_global s _ value
  · exact exists_sight_resource s .memory _ value
  · exact exists_sight_resource s .table _ value
  · exact exists_sight_function s _ value
  · exact ⟨.error _, fun _ _ => rfl⟩

end Store
end MixedModules
