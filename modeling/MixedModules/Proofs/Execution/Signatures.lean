import Mathlib.Data.List.Forall2
import MixedModules.Proofs.Execution.Ending
import MixedModules.Proofs.Store.Growth

/-! Calls across the boundary between values and raw numbers.

A function with a signature is called with raw numbers only if they are what the signature
lists, and gives back only what it lists. Called with values, it gets the numbers that they are
converted to, and where one of them cannot be converted it is not called at all. -/
namespace MixedModules

variable {κ σ : Type}

/-- Raw numbers of given types, one for each. -/
def Raw.Fit (types : List NumType) (numbers : List Raw) : Prop :=
  List.Forall₂ (fun type number => number.type = type) types numbers

theorem Raw.fit_iff {types : List NumType} {numbers : List Raw} :
    Raw.Fit types numbers ↔ numbers.map Raw.type = types := by
  unfold Raw.Fit
  induction numbers generalizing types with
  | nil =>
    cases types with
    | nil => simp
    | cons => exact ⟨nofun, nofun⟩
  | cons number numbers ih =>
    cases types with
    | nil => exact ⟨nofun, nofun⟩
    | cons type types => simp [ih]

theorem typesMatch_eq_true {types : List NumType} {numbers : List Raw} :
    typesMatch types numbers = true ↔ Raw.Fit types numbers := by
  rw [Raw.fit_iff, typesMatch, beq_iff_eq]

theorem typesMatch_eq_false {types : List NumType} {numbers : List Raw} :
    typesMatch types numbers = false ↔ ¬ Raw.Fit types numbers := by
  rw [← typesMatch_eq_true, Bool.not_eq_true]

instance (types : List NumType) (numbers : List Raw) : Decidable (Raw.Fit types numbers) :=
  decidable_of_iff _ Raw.fit_iff.symm

/-- A value becomes a number of the type that it is converted to. -/
theorem Value.type_of_toRaw {type : NumType} {value : Value} {number : Raw}
    (converted : value.toRaw type = .ok number) : number.type = type := by
  have of_map {α : Type} {result : Except TypeFault α} {make : α → Raw} {t : NumType}
      (typed : ∀ a, (make a).type = t) (mapped : result.map make = .ok number) : number.type = t := by
    cases result with
    | error e => cases mapped
    | ok a =>
      cases mapped
      exact typed a
  cases type with
  | i32 => exact of_map (fun _ => rfl) converted
  | f32 => exact of_map (fun _ => rfl) converted
  | f64 => exact of_map (fun _ => rfl) converted
  | i64 => cases value <;> cases converted <;> rfl

/-- An argument in its place. One that is missing is undefined. -/
def Value.argument (values : List Value) (i : Nat) : Value := values[i]?.getD .undefined

theorem Value.argument_zero (values : List Value) :
    Value.argument values 0 = values.headD .undefined := by
  cases values <;> rfl

theorem Value.argument_tail (values : List Value) (i : Nat) :
    Value.argument values.tail i = Value.argument values (i + 1) := by
  simp [argument]

namespace Calls

variable {types : List NumType} {values : List Value} {numbers : List Raw}

/-- The parameters are converted in order, each from the value in its place. -/
theorem convertArguments_eq (types : List NumType) (values : List Value) :
    convertArguments types values =
      types.zipIdx.mapM fun (type, i) => (Value.argument values i).toRaw type := by
  have from_ (n : Nat) : convertArguments types (values.drop n) =
      (types.zipIdx n).mapM fun (type, i) => (Value.argument values i).toRaw type := by
    induction types generalizing n with
    | nil => rfl
    | cons type types ih =>
      simp only [convertArguments, List.zipIdx_cons, List.mapM_cons, List.tail_drop, ih]
      rw [List.headD_eq_head?_getD, List.head?_drop, Value.argument]
  exact from_ 0

/-- Where one value cannot be converted, there are no arguments. -/
theorem convertArguments_error {i : Nat} {type : NumType} {fault : TypeFault}
    (parameter : types[i]? = some type)
    (refused : (Value.argument values i).toRaw type = .error fault) :
    ∃ fault', convertArguments types values = .error fault' := by
  induction types generalizing values i with
  | nil => simp at parameter
  | cons first types ih =>
    unfold convertArguments
    cases converted : (values.headD .undefined).toRaw first with
    | error fault' => exact ⟨fault', rfl⟩
    | ok number =>
      cases i with
      | zero =>
        cases parameter
        rw [← Value.argument_zero, refused] at converted
        cases converted
      | succ i =>
        rw [← Value.argument_tail] at refused
        obtain ⟨fault', failed⟩ := ih parameter refused
        exact ⟨fault', by rw [failed]; rfl⟩

end Calls

/-! ## Calls by a signature -/

/-- What stands behind a function with a signature: the code of a binary function, whose results
are checked, or a call of the function that an adapter stands for, whose result becomes a number
where one is declared. -/
def Function.behind (embedder : Embedder κ σ) (inner : Calls κ σ) (function : Function κ)
    (numbers : List Raw) : Run (World κ σ) (List Raw) :=
  match function.callable with
  | .binary type code home => do
    let results ← (embedder.binary code home numbers).run inner
    if Raw.Fit type.results results then return results
    else World.fail (.resultTypes function.name)
  | .adapter type target => do
    let value ← inner.call target (numbers.map Value.ofRaw)
    match type.results with
    | [] => return []
    | [single] =>
      let result ← liftM ((value.toRaw single).mapError EvalError.type)
      return [result]
    | several => World.fail (.adapterResults function.name several.length)
  | .script .. | .host _ => World.fail (.notBinaryCallable function.name)

namespace World

/-- A function with a signature is called as the signature says, in one world, by one embedder
and at one depth of calls. Numbers that do not fit are `refused` before anything is run, those
that fit go to what stands behind the function, and only numbers that fit are `returned`. A call
with values is a call with what they are converted to, one for each parameter, undefined standing
for those that are missing. -/
structure CallsBySignature (w : World κ σ) (embedder : Embedder κ σ) (depth : Nat)
    (f : FunctionId) (function : Function κ) (type : FuncType) : Prop where
  refused : ∀ numbers, ¬ Raw.Fit type.params numbers →
    (Calls.ofDepth embedder (depth + 1)).invoke f numbers w =
      (some (.error (.type (.argumentTypes function.name))), w.become w.store)
  accepted : ∀ numbers, Raw.Fit type.params numbers →
    (Calls.ofDepth embedder (depth + 1)).invoke f numbers w =
      function.behind embedder (Calls.ofDepth embedder depth) numbers (w.become w.store)
  returned : ∀ numbers results w',
    (Calls.ofDepth embedder (depth + 1)).invoke f numbers w = (some (.ok results), w') →
      Raw.Fit type.params numbers ∧ Raw.Fit type.results results
  called : ∀ values, (Calls.ofDepth embedder (depth + 1)).call f values w = (do
    let numbers ← liftM ((type.params.zipIdx.mapM fun (type, i) =>
      (Value.argument values i).toRaw type).mapError EvalError.type)
    match ← (Calls.ofDepth embedder (depth + 1)).invoke f numbers with
    | [] => return .undefined
    | [single] => return .ofRaw single
    | several => fail (.severalResults function.name several.length) : Run (World κ σ) Value)
      (w.become w.store)
  unconverted : ∀ (values : List Value) i type' fault, type.params[i]? = some type' →
    (Value.argument values i).toRaw type' = .error fault → ∃ fault',
      (Calls.ofDepth embedder (depth + 1)).call f values w =
        (some (.error (.type fault')), w.become w.store)

section Calls

variable {w : World κ σ} {embedder : Embedder κ σ} {inner : Calls κ σ} {depth : Nat}
  {f : FunctionId} {function : Function κ} {type : FuncType} {numbers : List Raw}

/-- A function without a signature takes no raw numbers, and nothing is run. -/
theorem invokeOver_unsigned (known : w.store.function f = .ok function)
    (unsigned : function.signature? = none) (numbers : List Raw) :
    Calls.invokeOver embedder inner f numbers w =
      (some (.error (.type (.notBinaryCallable function.name))), w.become w.store) := by
  unfold Calls.invokeOver
  rw [Run.bind_apply, reading_apply known]
  obtain ⟨name, callable⟩ := function
  cases callable with
  | script | host => rfl
  | binary | adapter => cases unsigned

/-- Numbers that do not fit are refused, and nothing is run. -/
theorem invokeOver_refused (known : w.store.function f = .ok function)
    (signed : function.signature? = some type) (misfit : ¬ Raw.Fit type.params numbers) :
    Calls.invokeOver embedder inner f numbers w =
      (some (.error (.type (.argumentTypes function.name))), w.become w.store) := by
  have refused := typesMatch_eq_false.mpr misfit
  unfold Calls.invokeOver
  rw [Run.bind_apply, reading_apply known]
  obtain ⟨name, callable⟩ := function
  cases callable with
  | script | host => cases signed
  | binary | adapter =>
    cases signed
    simp only [refused]
    rfl

/-- The module that a binary function belongs to is there, so numbers that fit come to what
stands behind the function. -/
theorem invokeOver_accepted (intact : w.store.Intact) (known : w.store.function f = .ok function)
    (signed : function.signature? = some type) (fit : Raw.Fit type.params numbers) :
    Calls.invokeOver embedder inner f numbers w =
      function.behind embedder inner numbers (w.become w.store) := by
  have accepted := typesMatch_eq_true.mpr fit
  unfold Calls.invokeOver
  rw [Run.bind_apply, reading_apply known]
  unfold Function.behind
  obtain ⟨name, callable⟩ := function
  cases callable with
  | script | host => cases signed
  | adapter type' target =>
    cases signed
    simp only [accepted]
    rfl
  | binary type' code home =>
    cases signed
    obtain ⟨environment, present⟩ := intact.homes f _ _ code home known rfl
    have there : Calls.requireHome ⟨name, .binary type code home⟩ home (w.become w.store) =
        (some (.ok ()), w.become w.store) := by
      unfold Calls.requireHome
      rw [Run.bind_apply, Run.get_apply]
      simp only [become, present]
      rfl
    simp only [accepted, Bool.not_true, Bool.false_eq_true, if_false]
    rw [Run.bind_apply, there]
    simp only
    refine congrFun (bind_congr fun results => ?_) (w.become w.store)
    by_cases fit : Raw.Fit type.results results
    · simp only [typesMatch_eq_true.mpr fit, fit, if_true]
      rfl
    · simp only [typesMatch_eq_false.mpr fit, fit, if_false]
      rfl

/-- What stands behind a function gives back only what the signature lists. -/
theorem fit_of_behind {results : List Raw} {w' : World κ σ}
    (signed : function.signature? = some type)
    (ran : function.behind embedder inner numbers w = (some (.ok results), w')) :
    Raw.Fit type.results results := by
  unfold Function.behind at ran
  obtain ⟨name, callable⟩ := function
  cases callable with
  | script | host => cases signed
  | binary type' code home =>
    cases signed
    simp only at ran
    rw [Run.bind_apply] at ran
    split at ran
    · split at ran
      · rename_i fit
        cases ran
        exact fit
      · cases ran
    · cases ran
    · cases ran
  | adapter type' target =>
    cases signed
    simp only at ran
    rw [Run.bind_apply] at ran
    split at ran
    · rename_i value between _
      rcases listed : type.results with _ | ⟨single, _ | ⟨next, rest⟩⟩ <;> simp only [listed] at ran
      · cases ran
        exact .nil
      · cases converted : value.toRaw single with
        | error fault =>
          rw [converted] at ran
          cases ran
        | ok number =>
          rw [converted] at ran
          cases ran
          exact .cons (Value.type_of_toRaw converted) .nil
      · cases ran
    · cases ran
    · cases ran

/-- A function with a signature is called as the signature says. -/
theorem callsBySignature (intact : w.store.Intact) (known : w.store.function f = .ok function)
    (signed : function.signature? = some type) :
    w.CallsBySignature embedder depth f function type := by
  have typed (values : List Value) : (Calls.ofDepth embedder (depth + 1)).call f values w =
      Calls.callTyped embedder (Calls.ofDepth embedder depth) f function.name type values
        (w.become w.store) := by
    change Calls.callOver embedder (Calls.ofDepth embedder depth) f values w = _
    unfold Calls.callOver
    rw [Run.bind_apply, reading_apply known]
    obtain ⟨name, callable⟩ := function
    cases callable with
    | script | host => cases signed
    | binary | adapter =>
      cases signed
      rfl
  refine ⟨fun numbers misfit => invokeOver_refused known signed misfit,
    fun numbers fit => invokeOver_accepted intact known signed fit,
    fun numbers results w' ran => ?_, fun values => ?_,
    fun values i type' fault parameter refused => ?_⟩
  · have fit : Raw.Fit type.params numbers := by
      by_contra misfit
      change Calls.invokeOver embedder _ f numbers w = _ at ran
      rw [invokeOver_refused known signed misfit] at ran
      cases ran
    change Calls.invokeOver embedder _ f numbers w = _ at ran
    rw [invokeOver_accepted intact known signed fit] at ran
    exact ⟨fit, fit_of_behind signed ran⟩
  · rw [typed, Calls.callTyped, Calls.convertArguments_eq]
    rfl
  · obtain ⟨fault', failed⟩ := Calls.convertArguments_error parameter refused
    refine ⟨fault', ?_⟩
    rw [typed, Calls.callTyped, failed]
    rfl

end Calls

end World
end MixedModules
