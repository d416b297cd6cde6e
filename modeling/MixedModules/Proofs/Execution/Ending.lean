import MixedModules.Execution.Calls

/-! How runs end.

A run that comes to an end does so with an answer or with a failure, and something is known of
the state then. A row of runs fails where one of them does, after others that succeed; what each
of them brings about in turn, all of them bring about together. -/
namespace MixedModules

variable {ς α β : Type}

namespace Run

/-- A run that answers leaves the state that it leaves. -/
theorem apply_of_isOk {x : Run ς Unit} {s : ς} (succeeds : (x s).1.map (·.isOk) = some true) :
    x s = (some (.ok ()), (x s).2) := by
  obtain ⟨result, ended, ok⟩ := Option.map_eq_some_iff.mp succeeds
  cases result with
  | error e => cases ok
  | ok _ => exact Prod.ext ended rfl

/-- If two runs answer one after the other, both do. -/
theorem bind_eq_ok {x : Run ς α} {next : α → Run ς β} {s s' : ς} {b : β}
    (ran : (x >>= next) s = (some (.ok b), s')) :
    ∃ a between, x s = (some (.ok a), between) ∧ next a between = (some (.ok b), s') := by
  rw [Run.bind_apply] at ran
  rcases first : x s with ⟨_ | _ | a, between⟩ <;> rw [first] at ran
  · cases ran
  · cases ran
  · exact ⟨a, between, rfl, ran⟩

/-! ## Rows -/

section Rows

variable {f : α → Run ς Unit} {xs first rest : List α} {x : α} {s s' between : ς} {e : EvalError}

theorem forM_cons_apply (f : α → Run ς Unit) (x : α) (xs : List α) (s : ς) :
    (x :: xs).forM f s = (do f x; xs.forM f : Run ς Unit) s := rfl

theorem forM_singleton_apply (f : α → Run ς Unit) (x : α) (s : ς) : [x].forM f s = f x s := by
  rw [forM_cons_apply, Run.bind_apply]
  rcases f x s with ⟨_ | _ | _, _⟩ <;> rfl

/-- What comes first in a row comes before the rest of it. -/
theorem forM_split {last : Run ς Unit} (ready : first.forM f s = (some (.ok ()), between)) :
    (do (first ++ x :: rest).forM f; last : Run ς Unit) s =
      (do f x; rest.forM f; last : Run ς Unit) between := by
  rw [List.forM_eq_forM] at ready ⊢
  rw [List.forM_append, bind_assoc, Run.bind_apply, ready]
  simp only [List.forM_cons, bind_assoc]

/-- A row of runs fails when one of them does, after others that succeed. -/
theorem forM_eq_error : xs.forM f s = (some (.error e), s') ↔
    ∃ first x rest between, xs = first ++ x :: rest ∧
      first.forM f s = (some (.ok ()), between) ∧ f x between = (some (.error e), s') := by
  induction xs generalizing s with
  | nil =>
    constructor
    · rintro ⟨⟩
    · rintro ⟨first, x, rest, between, parts, _⟩
      simp at parts
  | cons y xs ih =>
    rw [forM_cons_apply, Run.bind_apply]
    constructor
    · intro fails
      rcases here : f y s with ⟨_ | _ | _, next⟩ <;> rw [here] at fails
      · cases fails
      · cases fails
        exact ⟨[], y, xs, s, rfl, rfl, here⟩
      · obtain ⟨first, x, rest, between, rfl, ready, last⟩ := ih.mp fails
        refine ⟨y :: first, x, rest, between, rfl, ?_, last⟩
        rw [forM_cons_apply, Run.bind_apply, here]
        exact ready
    · rintro ⟨first, x, rest, between, parts, ready, last⟩
      cases first with
      | nil =>
        cases parts
        cases ready
        rw [last]
      | cons _ first =>
        cases parts
        rw [forM_cons_apply, Run.bind_apply] at ready
        rcases here : f y s with ⟨_ | _ | _, next⟩ <;> rw [here] at ready
        · cases ready
        · cases ready
        · exact ih.mpr ⟨first, x, rest, between, rfl, ready, last⟩

end Rows

/-! ## Ends -/

/-- Where a run leads from a state if it answers, and if it fails. -/
structure Ends (x : Run ς α) (s : ς) (done : α → ς → Prop) (failed : EvalError → ς → Prop) :
    Prop where
  done : ∀ a s', x s = (some (.ok a), s') → done a s'
  failed : ∀ e s', x s = (some (.error e), s') → failed e s'

namespace Ends

variable {x : Run ς α} {s : ς} {done done' : α → ς → Prop} {failed failed' : EvalError → ς → Prop}

theorem mono (ends : x.Ends s done failed) (more : ∀ a s', done a s' → done' a s')
    (more' : ∀ e s', failed e s' → failed' e s') : x.Ends s done' failed' :=
  ⟨fun a s' ran => more a s' (ends.done a s' ran), fun e s' ran => more' e s' (ends.failed e s' ran)⟩

/-- How a run ends is known beside where it leads. -/
theorem ran (ends : x.Ends s done failed) :
    x.Ends s (fun a s' => x s = (some (.ok a), s') ∧ done a s')
      fun e s' => x s = (some (.error e), s') ∧ failed e s' :=
  ⟨fun a s' ran => ⟨ran, ends.done a s' ran⟩, fun e s' ran => ⟨ran, ends.failed e s' ran⟩⟩

theorem pure {a : α} (holds : done a s) : Ends (pure a : Run ς α) s done failed :=
  ⟨fun _ _ ran => (by cases ran; exact holds), fun _ _ ran => (by cases ran)⟩

theorem bind {next : α → Run ς β} {last : β → ς → Prop} (first : x.Ends s done failed)
    (second : ∀ a s', x s = (some (.ok a), s') → done a s' → (next a).Ends s' last failed) :
    (x >>= next).Ends s last failed := by
  constructor
  · intro b s' ran
    obtain ⟨a, between, result, ran⟩ := bind_eq_ok ran
    exact (second a between result (first.done a between result)).done b s' ran
  · intro e s' ran
    rw [Run.bind_apply] at ran
    rcases result : x s with ⟨_ | _ | a, between⟩ <;> rw [result] at ran
    · cases ran
    · cases ran
      exact first.failed e _ result
    · exact (second a between result (first.done a between result)).failed e s' ran

/-- What the runs of a row bring about one after the other. -/
theorem forM {xs : List α} {f : α → Run ς Unit} {reached : List α → ς → Prop}
    (start : reached [] s)
    (each : ∀ first x rest, xs = first ++ x :: rest → ∀ s', reached first s' →
      (f x).Ends s' (fun _ => reached (first ++ [x])) failed) :
    Ends (xs.forM f) s (fun _ => reached xs) failed := by
  have all : ∀ first rest, xs = first ++ rest → ∀ s', reached first s' →
      Ends (rest.forM f) s' (fun _ => reached xs) failed := by
    intro first rest
    induction rest generalizing first with
    | nil =>
      intro parts s' here
      rw [List.append_nil] at parts
      exact .pure (parts ▸ here)
    | cons x rest ih =>
      intro parts s' here
      refine .bind (each first x rest parts s' here) fun _ s'' _ reached => ?_
      exact ih (first ++ [x]) (by rw [parts, List.append_assoc]; rfl) s'' reached
  exact all [] xs rfl s start

/-- What each run of a row keeps is kept by the whole. -/
theorem forM_kept {xs : List α} {f : α → Run ς Unit} {kept : ς → Prop} (start : kept s)
    (each : ∀ x ∈ xs, ∀ s', kept s' → (f x).Ends s' (fun _ => kept) failed) :
    Ends (xs.forM f) s (fun _ => kept) failed := by
  have whole : Ends (xs.forM f) s (fun _ => (fun _ => kept) xs) failed :=
    .forM start fun _ x _ parts => each x (by simp [parts])
  exact whole

end Ends
end Run

namespace World

variable {κ σ : Type} {w : World κ σ} {done : α → World κ σ → Prop}
  {failed : EvalError → World κ σ → Prop}

theorem change_apply {step : Change κ α} {a : α} {s : Store κ} (ran : step w.store = .ok (a, s)) :
    change step w = (some (.ok a), w.become s) := by
  simp only [change, ran]

theorem change_eq_ok {step : Change κ α} {a : α} {w' : World κ σ}
    (ran : change step w = (some (.ok a), w')) :
    ∃ s, step w.store = .ok (a, s) ∧ w' = w.become s := by
  unfold change at ran
  cases result : step w.store with
  | error e =>
    rw [result] at ran
    cases ran
  | ok pair =>
    obtain ⟨b, s⟩ := pair
    rw [result] at ran
    cases ran
    exact ⟨s, rfl, rfl⟩

theorem change_eq_error {step : Change κ α} {e : EvalError} {w' : World κ σ}
    (ran : change step w = (some (.error e), w')) : step w.store = .error e ∧ w' = w := by
  unfold change at ran
  cases result : step w.store with
  | error e =>
    rw [result] at ran
    cases ran
    exact ⟨rfl, rfl⟩
  | ok pair =>
    rw [result] at ran
    cases ran

theorem reading_eq_error {read : Store κ → Except EvalError α} {e : EvalError} {w' : World κ σ}
    (ran : reading read w = (some (.error e), w')) : read w.store = .error e ∧ w' = w := by
  obtain ⟨refused, rfl⟩ := change_eq_error ran
  refine ⟨?_, rfl⟩
  unfold Operation.reading at refused
  cases result : read w'.store <;> rw [result] at refused <;> cases refused
  rfl

theorem ends_change {step : Change κ α} (ok : ∀ a s, step w.store = .ok (a, s) → done a (w.become s))
    (error : ∀ e, step w.store = .error e → failed e w) : (change step).Ends w done failed := by
  constructor
  · intro a w' ran
    obtain ⟨s, made, rfl⟩ := change_eq_ok ran
    exact ok a s made
  · intro e w' ran
    obtain ⟨made, rfl⟩ := change_eq_error ran
    exact error e made

theorem reading_apply {read : Store κ → Except EvalError α} {a : α} (found : read w.store = .ok a) :
    reading read w = (some (.ok a), w.become w.store) := by
  simp only [reading, change, Operation.reading, found, Except.map]

/-- What is found goes into what follows. -/
theorem ends_reading {β : Type} {read : Store κ → Except EvalError β} {b : β}
    {next : β → Run (World κ σ) α} (found : read w.store = .ok b)
    (rest : (next b).Ends (w.become w.store) done failed) :
    (reading read >>= next).Ends w done failed := by
  constructor
  · intro a w' ran
    rw [Run.bind_apply, reading_apply found] at ran
    exact rest.done a w' ran
  · intro e w' ran
    rw [Run.bind_apply, reading_apply found] at ran
    exact rest.failed e w' ran

end World
end MixedModules
