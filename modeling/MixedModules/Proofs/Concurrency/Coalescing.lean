import Mathlib.Data.Nat.Init
import Mathlib.Logic.Relation
import MixedModules.Proofs.Concurrency.Intake

/-! Requests over time.

Callers that ask for one identity at once share one load of it. What a caller gets is the module
that is registered, or the failure of a load that was in flight while it asked. A failure is kept
for those that wait for it, and for no others. -/
namespace MixedModules
open Relation

variable {κ : Type}

namespace Intake

variable {s s' : Intake κ} {n : Nat} {identity : String} {cell : Nat} {m : ModuleId}
  {phase : Inquiry.Phase} {outcome : Except GraphError ModuleId} {e : GraphError}

/-! ## What one step does -/

/-- What is registered stays, and a module is new only where a caller has loaded it. -/
theorem Next.bears (next : Next s s') :
    (s.registry.Bears m identity → s'.registry.Bears m identity) ∧
    (s'.registry.Bears m identity → s.registry.Bears m identity ∨
      ∃ n cell, s.inquiries n = some ⟨identity, .loading cell⟩) := by
  cases next with
  | work same => exact ⟨(same m identity).mpr, fun bears => .inl ((same m identity).mp bears)⟩
  | call n steps =>
    cases steps with
    | @finish _ label cell stock _ _ _ _ here ran _ =>
      change (_ → stock.registry.Bears m identity) ∧ (stock.registry.Bears m identity → _)
      rcases Loads.load_cases ran with ⟨record, _, registered⟩ | ⟨_, kept⟩
      · rw [registered, Registry.bears_register]
        refine ⟨.inl, ?_⟩
        rintro (early | ⟨_, rfl⟩)
        · exact .inl early
        · exact .inr ⟨n, cell, here⟩
      · rw [kept]
        exact ⟨id, .inl⟩
    | _ => exact ⟨id, .inl⟩

/-- An outcome stays in its cell. -/
theorem Next.filled (next : Next s s') (sound : s.Sound)
    (there : s.cells[cell]? = some ⟨identity, .filled outcome⟩) :
    s'.cells[cell]? = some ⟨identity, .filled outcome⟩ := by
  have other {place : Nat} {label : String} {old contents : LoadCell.Contents}
      (due : s.cells[place]? = some ⟨label, old⟩) (unfilled : old ≠ .filled outcome) :
      (s.fill place label contents).cells[cell]? = some ⟨identity, .filled outcome⟩ := by
    rw [fill_cells due, if_neg, there]
    rintro rfl
    cases due.symm.trans there
    exact unfilled rfl
  cases next with
  | work => exact there
  | call n steps =>
    cases steps with
    | @launch label here absent none_ =>
      obtain ⟨inside, _⟩ := Array.getElem?_eq_some_iff.mp there
      exact open_cells.trans ((if_neg (Nat.ne_of_lt inside)).trans there)
    | begin here due => exact other due (by simp)
    | finish loader source here ran returned | crash loader source here ran =>
      obtain ⟨contents, due, fits⟩ := sound.held n _ _ _ here rfl
      cases fits
      exact other due (by simp)
    | _ => exact there

/-- An outcome is new in a cell only where a caller has loaded for it. -/
theorem Next.loaded (next : Next s s') (sound : s.Sound)
    (there : s'.cells[cell]? = some ⟨identity, .filled outcome⟩) :
    s.cells[cell]? = some ⟨identity, .filled outcome⟩ ∨
      ∃ n, s.inquiries n = some ⟨identity, .loading cell⟩ ∧
        s'.inquiries n = some ⟨identity, .leaving cell outcome⟩ := by
  have fills {place : Nat} {label : String} {old contents : LoadCell.Contents}
      (due : s.cells[place]? = some ⟨label, old⟩)
      (there : (s.fill place label contents).cells[cell]? = some ⟨identity, .filled outcome⟩) :
      s.cells[cell]? = some ⟨identity, .filled outcome⟩ ∨
        cell = place ∧ label = identity ∧ contents = .filled outcome := by
    rw [fill_cells due] at there
    split at there
    · next same =>
      cases there
      exact .inr ⟨same, rfl, rfl⟩
    · exact .inl there
  cases next with
  | work => exact .inl there
  | call n steps =>
    cases steps with
    | @launch label here absent none_ =>
      change (s.open_ label).cells[cell]? = _ at there
      rw [open_cells] at there
      split at there
      · cases there
      · exact .inl there
    | begin here due =>
      rcases fills due there with already | ⟨_, _, full⟩
      · exact .inl already
      · cases full
    | finish loader source here ran returned =>
      obtain ⟨contents, due, _⟩ := sound.held n _ _ _ here rfl
      rcases fills due there with already | ⟨rfl, rfl, full⟩
      · exact .inl already
      · cases full
        exact .inr ⟨n, here, put_self⟩
    | crash loader source here ran =>
      obtain ⟨contents, due, _⟩ := sound.held n _ _ _ here rfl
      rcases fills due there with already | ⟨_, _, full⟩
      · exact .inl already
      · cases full
    | _ => exact .inl there

/-- A cell is taken out of flight only by a caller that holds this very cell and returns. -/
theorem Next.spares (next : Next s s') (flies : s.inFlight identity = some cell) :
    s'.inFlight identity = some cell ∨ s'.inFlight identity = none ∧
      ∃ n outcome, s.inquiries n = some ⟨identity, .leaving cell outcome⟩ ∧
        s'.inquiries n = some ⟨identity, .answered outcome⟩ := by
  cases next with
  | work => exact .inl flies
  | call n steps =>
    cases steps with
    | @launch label here absent none_ =>
      refine .inl (open_inFlight.trans ((if_neg ?_).trans flies))
      rintro rfl
      cases none_.symm.trans flies
    | @leave label place outcome here =>
      by_cases same : identity = label ∧ cell = place
      · obtain ⟨rfl, rfl⟩ := same
        refine .inr ⟨?_, n, outcome, here, put_self⟩
        change (s.remove identity cell).inFlight identity = none
        rw [remove, if_pos flies]
        exact Function.update_self ..
      · exact .inl (remove_inFlight.mpr ⟨flies, same⟩)
    | _ => exact .inl flies

/-- Only a new cell is put in flight, and no cell goes away. -/
theorem Next.launches (next : Next s s') (identity : String) (cell : Nat) :
    s.cells.size ≤ s'.cells.size ∧
    (s'.inFlight identity = some cell → s.inFlight identity = some cell ∨ s.cells.size ≤ cell) := by
  have size {place : Nat} {label : String} {contents : LoadCell.Contents} :
      s.cells.size ≤ (s.fill place label contents).cells.size :=
    Nat.le_of_eq Array.size_setIfInBounds.symm
  cases next with
  | work => exact ⟨Nat.le_refl _, .inl⟩
  | call n steps =>
    cases steps with
    | @launch label here absent none_ =>
      refine ⟨Nat.le_of_succ_le (Nat.le_of_eq (Array.size_push _).symm), fun flies => ?_⟩
      change (s.open_ label).inFlight identity = some cell at flies
      rw [open_inFlight] at flies
      split at flies
      · cases flies
        exact .inr (Nat.le_refl _)
      · exact .inl flies
    | begin | finish | crash => exact ⟨size, .inl⟩
    | leave here => exact ⟨Nat.le_refl _, fun flies => .inl (remove_inFlight.mp flies).1⟩
    | _ => exact ⟨Nat.le_refl _, .inl⟩

/-- A caller takes its own steps only. -/
theorem Next.inquiry (next : Next s s') (n : Nat) :
    s'.inquiries n = s.inquiries n ∨ Steps n s s' := by
  cases next with
  | work => exact .inl rfl
  | call k steps =>
    by_cases same : n = k
    · exact .inr (same ▸ steps)
    · refine .inl ?_
      cases steps with
      | _ => exact put_other same

/-- A caller takes hold of a cell only while it is in flight. -/
theorem Steps.takes (steps : Steps n s s') (there : s'.inquiries n = some ⟨identity, phase⟩)
    (holds : phase.cell? = some cell) :
    phase = .holding cell ∧ s'.inFlight identity = some cell ∨
      ∃ before, s.inquiries n = some ⟨identity, before⟩ ∧ before.cell? = some cell := by
  cases steps with
  | start | find | miss | findLate | crash | leave =>
    rw [put_self] at there
    cases there
    cases holds
  | join here absent flies =>
    rw [put_self] at there
    cases there
    cases holds
    exact .inl ⟨rfl, flies⟩
  | launch here absent none_ =>
    rw [put_self] at there
    cases there
    cases holds
    exact .inl ⟨rfl, open_inFlight.trans (if_pos rfl)⟩
  | begin here | finish _ _ here | read here =>
    rw [put_self] at there
    cases there
    exact .inr ⟨_, here, holds⟩

/-- A caller that returns a failure has it from its cell. -/
theorem Steps.fails (steps : Steps n s s')
    (there : s'.inquiries n = some ⟨identity, .answered (.error e)⟩) :
    ∃ cell, s.inquiries n = some ⟨identity, .leaving cell (.error e)⟩ := by
  cases steps with
  | @leave _ cell _ here =>
    rw [put_self] at there
    cases there
    exact ⟨cell, here⟩
  | _ =>
    rw [put_self] at there
    cases there

/-- Where no caller is active, only a vacant cell can be in flight. -/
theorem Sound.vacant (sound : s.Sound) (idle : ∀ n, ¬ s.Active n)
    (flies : s.inFlight identity = some cell) : s.cells[cell]? = some ⟨identity, .vacant⟩ ∧
      ∃ n, s.inquiries n = some ⟨identity, .crashed⟩ := by
  rcases sound.awaited identity cell flies with ⟨n, phase, here, holds⟩ | left
  · refine absurd ⟨_, here, ?_, ?_⟩ (idle n)
    · rintro rfl
      cases holds
    · rintro outcome rfl
      cases holds
  · exact left

/-! ## A caller alone -/

section Alone

variable {ℓ : Type} {loader : Loader κ ℓ} {source : ℓ} {stock : Stock κ ℓ}
  {result : Except Stop ModuleId}

/-- A caller that opens a cell can load for it, and take it out of flight. -/
theorem run_of_load (here : s.inquiries n = some ⟨identity, .missing⟩)
    (absent : s.registry.lookup identity = none) (free : s.inFlight identity = none)
    (ran : (Loads.load loader identity).outcome ⟨s.registry, source⟩ = (result, stock))
    (returned : Loads.returned? result = some outcome) :
    ∃ s', ReflTransGen Next s s' ∧ s'.registry = stock.registry ∧ s'.inFlight = s.inFlight ∧
      s'.inquiries = Function.update s.inquiries n (some ⟨identity, .answered outcome⟩) := by
  have launches : Next s _ := .call n (.launch here absent free)
  have begins := (ReflTransGen.single launches).tail (.call n (.begin put_self open_cells_self))
  have loads := begins.tail (.call n (.finish loader source put_self ran returned))
  refine ⟨_, loads.tail (.call n (.leave put_self)), rfl, ?_, ?_⟩
  · change (if Function.update s.inFlight identity (some s.cells.size) identity = some s.cells.size
      then Function.update (Function.update s.inFlight identity _) identity none else _) = s.inFlight
    rw [if_pos (Function.update_self ..), Function.update_idem, ← free, Function.update_eq_self]
  · simp only [put, fill, open_, remove, Function.update_idem]

/-- Where no cell is in flight for what it asks, a caller can do what a request alone does. -/
theorem run_of_obtain (unused : s.inquiries n = none)
    (free : s.registry.lookup identity = none → s.inFlight identity = none)
    (ran : (Loads.obtain loader identity).outcome ⟨s.registry, source⟩ = (result, stock))
    (returned : Loads.returned? result = some outcome) :
    ∃ s', ReflTransGen Next s s' ∧ s'.registry = stock.registry ∧ s'.inFlight = s.inFlight ∧
      s'.inquiries = Function.update s.inquiries n (some ⟨identity, .answered outcome⟩) := by
  have starts : Next s _ := .call n (.start identity unused)
  rw [Loads.outcome_obtain] at ran
  cases found : s.registry.lookup identity with
  | some m =>
    simp only [found] at ran
    cases ran
    cases returned
    have finds : Next (s.put n identity .asking) _ := .call n (.find put_self found)
    exact ⟨_, .tail (.single starts) finds, rfl, rfl, Function.update_idem ..⟩
  | none =>
    simp only [found] at ran
    have misses : Next (s.put n identity .asking) _ := .call n (.miss put_self found)
    obtain ⟨s', loads, registry, inFlight, inquiries⟩ := run_of_load
      (s := (s.put n identity .asking).put n identity .missing) put_self found (free found) ran
      returned
    refine ⟨s', .head starts (.head misses loads), registry, inFlight, ?_⟩
    rw [inquiries]
    exact (Function.update_idem ..).trans (Function.update_idem ..)

end Alone

/-! ## What happens over time -/

/-- What happens from a quiet registry on, moment by moment. In some moments nothing happens. -/
structure Unfolds (r : Registry κ) (moments : Nat → Intake κ) : Prop where
  start : moments 0 = .quiet r
  next : ∀ k, moments (k + 1) = moments k ∨ Next (moments k) (moments (k + 1))

/-- How callers get on that ask for modules at once. -/
structure Coalesced (moments : Nat → Intake κ) : Prop where
  /-- No identity is registered twice. -/
  once : ∀ k, (moments k).registry.Distinct
  /-- A caller that returns a module returns the registered one. -/
  registered : ∀ k n identity m, (moments k).inquiries n = some ⟨identity, .answered (.ok m)⟩ →
    (moments k).registry.lookup identity = some m
  /-- All callers that return a module for an identity return the same one. -/
  agreed : ∀ j k n u identity m m', (moments j).inquiries n = some ⟨identity, .answered (.ok m)⟩ →
    (moments k).inquiries u = some ⟨identity, .answered (.ok m')⟩ → m = m'
  /-- When an identity is registered, it stays so, and nobody asks the loader for it again. -/
  unasked : ∀ j k identity m, j ≤ k → (moments j).registry.lookup identity = some m →
    (moments k).registry.lookup identity = some m ∧
      ∀ n cell, (moments k).inquiries n ≠ some ⟨identity, .loading cell⟩
  /-- A caller that returns a failure has taken hold of a cell in flight, and the failure is that
  of the load for this cell. -/
  failed : ∀ k n identity e, (moments k).inquiries n = some ⟨identity, .answered (.error e)⟩ →
    ∃ cell, (∃ j < k, (moments j).inquiries n = some ⟨identity, .holding cell⟩ ∧
        (moments j).inFlight identity = some cell) ∧
      ∃ i < k, ∃ u, (moments i).inquiries u = some ⟨identity, .loading cell⟩ ∧
        (moments (i + 1)).inquiries u = some ⟨identity, .leaving cell (.error e)⟩
  /-- All callers that hold a cell get the same outcome. -/
  shared : ∀ j k n u identity cell outcome outcome',
    (moments j).inquiries n = some ⟨identity, .leaving cell outcome⟩ →
    (moments k).inquiries u = some ⟨identity, .leaving cell outcome'⟩ → outcome = outcome'
  /-- A cell stays in flight until a caller returns that holds this very cell. -/
  spared : ∀ k identity cell, (moments k).inFlight identity = some cell →
    (moments (k + 1)).inFlight identity = some cell ∨
      (moments (k + 1)).inFlight identity = none ∧
        ∃ n outcome, (moments k).inquiries n = some ⟨identity, .leaving cell outcome⟩ ∧
          (moments (k + 1)).inquiries n = some ⟨identity, .answered outcome⟩
  /-- When no caller is active, no cell is in flight, unless the loader has crashed on one. -/
  clear : ∀ k identity, (∀ n, ¬ (moments k).Active n) →
    (∀ n, (moments k).inquiries n ≠ some ⟨identity, .crashed⟩) →
      (moments k).inFlight identity = none
  /-- A caller that comes when no caller is active, and nothing is registered for its identity,
  returns only after somebody has asked the loader again. -/
  again : ∀ j k n identity outcome, j ≤ k → (∀ n, ¬ (moments j).Active n) →
    (moments j).registry.lookup identity = none → (moments j).inquiries n = none →
    (moments k).inquiries n = some ⟨identity, .answered outcome⟩ →
      ∃ i, j ≤ i ∧ i < k ∧ ∃ u cell, (moments i).inquiries u = some ⟨identity, .loading cell⟩
  /-- A caller that finds no cell in flight can do what a request does that has the engine for
  itself. -/
  alone : ∀ k n identity {ℓ : Type} (loader : Loader κ ℓ) source result stock outcome,
    (moments k).inquiries n = none →
    ((moments k).registry.lookup identity = none → (moments k).inFlight identity = none) →
    (Loads.obtain loader identity).outcome ⟨(moments k).registry, source⟩ = (result, stock) →
    Loads.returned? result = some outcome →
      ∃ s, ReflTransGen Next (moments k) s ∧ s.registry = stock.registry ∧
        s.inFlight = (moments k).inFlight ∧ s.inquiries =
          Function.update (moments k).inquiries n (some ⟨identity, .answered outcome⟩)

namespace Unfolds

variable {r : Registry κ} {moments : Nat → Intake κ} {P : Intake κ → Prop} {i j k : Nat}

theorem sound (unfolds : Unfolds r moments) (distinct : r.Distinct) (k : Nat) :
    (moments k).Sound := by
  induction k with
  | zero =>
    rw [unfolds.start]
    exact .quiet distinct
  | succ k ih =>
    rcases unfolds.next k with same | next
    · rwa [same]
    · exact ih.next next

/-- What every step keeps stays. -/
theorem kept (unfolds : Unfolds r moments) (later : j ≤ k) (now : P (moments j))
    (keeps : ∀ i, P (moments i) → Next (moments i) (moments (i + 1)) → P (moments (i + 1))) :
    P (moments k) := by
  induction k, later using Nat.le_induction with
  | base => exact now
  | succ k _ ih =>
    rcases unfolds.next k with same | next
    · rwa [same]
    · exact keeps k ih next

/-- What has come to hold has done so in some step. -/
theorem came (unfolds : Unfolds r moments) (later : j ≤ k) (before : ¬ P (moments j))
    (now : P (moments k)) : ∃ i, j ≤ i ∧ i < k ∧ ¬ P (moments i) ∧ P (moments (i + 1)) ∧
      Next (moments i) (moments (i + 1)) := by
  induction k, later using Nat.le_induction with
  | base => exact absurd now before
  | succ k later ih =>
    by_cases already : P (moments k)
    · obtain ⟨i, past, ahead, came⟩ := ih already
      exact ⟨i, past, Nat.lt_succ_of_lt ahead, came⟩
    · refine ⟨k, later, Nat.lt_succ_self k, already, now, ?_⟩
      rcases unfolds.next k with same | next
      · exact absurd (same ▸ now) already
      · exact next

theorem bears (unfolds : Unfolds r moments) {m : ModuleId} (later : j ≤ k)
    (bears : (moments j).registry.Bears m identity) : (moments k).registry.Bears m identity :=
  unfolds.kept (P := (·.registry.Bears m identity)) later bears fun _ bears next =>
    next.bears.1 bears

theorem filled (unfolds : Unfolds r moments) (distinct : r.Distinct) (later : j ≤ k)
    (there : (moments j).cells[cell]? = some ⟨identity, .filled outcome⟩) :
    (moments k).cells[cell]? = some ⟨identity, .filled outcome⟩ :=
  unfolds.kept (P := fun s => s.cells[cell]? = some ⟨identity, .filled outcome⟩) later there
    fun i there next => next.filled (unfolds.sound distinct i) there

/-- A caller that holds a cell has taken hold of it when it was in flight. -/
theorem took (unfolds : Unfolds r moments) (later : j ≤ k) (unused : (moments j).inquiries n = none)
    (here : (moments k).inquiries n = some ⟨identity, phase⟩) (holds : phase.cell? = some cell) :
    ∃ i, j ≤ i ∧ i ≤ k ∧ (moments i).inquiries n = some ⟨identity, .holding cell⟩ ∧
      (moments i).inFlight identity = some cell := by
  have before : ¬ ∃ phase, (moments j).inquiries n = some ⟨identity, phase⟩ ∧
      phase.cell? = some cell := by
    rintro ⟨phase, here, _⟩
    cases unused.symm.trans here
  obtain ⟨i, past, ahead, apart, ⟨phase, there, holds⟩, next⟩ := unfolds.came
    (P := fun s => ∃ phase, s.inquiries n = some ⟨identity, phase⟩ ∧ phase.cell? = some cell)
    later before ⟨phase, here, holds⟩
  rcases next.inquiry n with same | steps
  · exact absurd ⟨phase, same.symm.trans there, holds⟩ apart
  · rcases steps.takes there holds with ⟨rfl, flies⟩ | already
    · exact ⟨i + 1, Nat.le_succ_of_le past, ahead, there, flies⟩
    · exact absurd already apart

/-- An outcome is in a cell because a caller has loaded for it. -/
theorem loaded (unfolds : Unfolds r moments) (distinct : r.Distinct) (later : j ≤ k)
    (before : (moments j).cells[cell]? ≠ some ⟨identity, .filled outcome⟩)
    (there : (moments k).cells[cell]? = some ⟨identity, .filled outcome⟩) :
    ∃ i, j ≤ i ∧ i < k ∧ ∃ u, (moments i).inquiries u = some ⟨identity, .loading cell⟩ ∧
      (moments (i + 1)).inquiries u = some ⟨identity, .leaving cell outcome⟩ := by
  obtain ⟨i, past, ahead, apart, there, next⟩ := unfolds.came
    (P := fun s => s.cells[cell]? = some ⟨identity, .filled outcome⟩) later before there
  rcases next.loaded (unfolds.sound distinct i) there with already | loads
  · exact absurd already apart
  · exact ⟨i, past, ahead, loads⟩

/-- A caller that has returned a failure has had it from a cell. -/
theorem left (unfolds : Unfolds r moments) (later : j ≤ k) (unused : (moments j).inquiries n = none)
    (there : (moments k).inquiries n = some ⟨identity, .answered (.error e)⟩) :
    ∃ i, j ≤ i ∧ i < k ∧ ∃ cell,
      (moments i).inquiries n = some ⟨identity, .leaving cell (.error e)⟩ := by
  obtain ⟨i, past, ahead, apart, there, next⟩ := unfolds.came
    (P := fun s => s.inquiries n = some ⟨identity, .answered (.error e)⟩) later (by simp [unused])
    there
  rcases next.inquiry n with same | steps
  · exact absurd (same.symm.trans there) apart
  · exact ⟨i, past, ahead, steps.fails there⟩

/-- A cell with an outcome that nobody holds is not in flight, and does not get there again. -/
theorem grounded (unfolds : Unfolds r moments) (distinct : r.Distinct) (later : j ≤ k)
    (idle : ∀ n, ¬ (moments j).Active n)
    (there : (moments j).cells[cell]? = some ⟨identity, .filled outcome⟩) :
    (moments k).inFlight identity ≠ some cell := by
  obtain ⟨inside, _⟩ := Array.getElem?_eq_some_iff.mp there
  have landed : (moments j).inFlight identity ≠ some cell := fun flies => by
    cases there.symm.trans ((unfolds.sound distinct j).vacant idle flies).1
  have stays := unfolds.kept (P := fun s => cell < s.cells.size ∧ s.inFlight identity ≠ some cell)
    later ⟨inside, landed⟩ fun i ⟨inside, landed⟩ next => by
      have ⟨more, launches⟩ := next.launches identity cell
      refine ⟨Nat.lt_of_lt_of_le inside more, fun flies => ?_⟩
      rcases launches flies with already | new
      · exact landed already
      · exact Nat.not_lt_of_le new inside
  exact stays.2

/-- What is returned to a caller that comes when no caller is active has been loaded since. -/
theorem reloaded (unfolds : Unfolds r moments) (distinct : r.Distinct) (later : j ≤ k)
    (idle : ∀ n, ¬ (moments j).Active n) (absent : (moments j).registry.lookup identity = none)
    (unused : (moments j).inquiries n = none)
    (returned : (moments k).inquiries n = some ⟨identity, .answered outcome⟩) :
    ∃ i, j ≤ i ∧ i < k ∧ ∃ u cell, (moments i).inquiries u = some ⟨identity, .loading cell⟩ := by
  cases outcome with
  | ok m =>
    obtain ⟨i, past, ahead, apart, bears, next⟩ := unfolds.came
      (P := (·.registry.Bears m identity)) later (Registry.lookup_eq_none_iff.mp absent m)
      ((unfolds.sound distinct k).answered n identity m returned)
    rcases next.bears.2 bears with already | loads
    · exact absurd already apart
    · exact ⟨i, past, ahead, loads⟩
  | error e =>
    obtain ⟨i, past, ahead, cell, leaves⟩ := unfolds.left later unused returned
    obtain ⟨_, there, rfl⟩ := (unfolds.sound distinct i).held n _ _ _ leaves rfl
    obtain ⟨_, past', _, _, flies⟩ := unfolds.took past unused leaves rfl
    obtain ⟨i', past', ahead', u, loads, _⟩ := unfolds.loaded distinct past
      (fun already => unfolds.grounded distinct past' idle already flies) there
    exact ⟨i', past', Nat.lt_trans ahead' ahead, u, cell, loads⟩

theorem coalesced (unfolds : Unfolds r moments) (distinct : r.Distinct) : Coalesced moments := by
  have sound := unfolds.sound distinct
  have registered (k n : Nat) (identity : String) (m : ModuleId)
      (here : (moments k).inquiries n = some ⟨identity, .answered (.ok m)⟩) :
      (moments k).registry.lookup identity = some m :=
    (sound k).distinct.lookup_iff.mpr ((sound k).answered n identity m here)
  have lasts {j k : Nat} {identity : String} {m : ModuleId} (later : j ≤ k)
      (found : (moments j).registry.lookup identity = some m) :
      (moments k).registry.lookup identity = some m :=
    (sound k).distinct.lookup_iff.mpr (unfolds.bears later (Registry.bears_of_lookup found))
  have unused (n : Nat) : (moments 0).inquiries n = none := by
    rw [unfolds.start]
    rfl
  constructor
  case once => exact fun k => (sound k).distinct
  case registered => exact registered
  case agreed =>
    intro j k n u identity m m' first second
    rcases Nat.le_total j k with later | later
    · have found := lasts later (registered j n identity m first)
      exact Option.some.inj (found.symm.trans (registered k u identity m' second))
    · have found := lasts later (registered k u identity m' second)
      exact Option.some.inj ((registered j n identity m first).symm.trans found)
  case unasked =>
    intro j k identity m later found
    have found := lasts later found
    refine ⟨found, fun n cell loads => ?_⟩
    obtain ⟨_, there, rfl⟩ := (sound k).held n _ _ _ loads rfl
    have unknown := ((sound k).pending _ _ _ there (by simp)).2
    exact unknown m (Registry.bears_of_lookup found)
  case failed =>
    intro k n identity e returned
    obtain ⟨i, _, ahead, cell, leaves⟩ := unfolds.left (Nat.zero_le k) (unused n) returned
    obtain ⟨_, there, rfl⟩ := (sound i).held n _ _ _ leaves rfl
    obtain ⟨j, _, before, holds, flies⟩ := unfolds.took (Nat.zero_le i) (unused n) leaves rfl
    obtain ⟨i', _, before', loads⟩ := unfolds.loaded distinct (Nat.zero_le i)
      (by simp [unfolds.start, quiet]) there
    exact ⟨cell, ⟨j, Nat.lt_of_le_of_lt before ahead, holds, flies⟩, i',
      Nat.lt_trans before' ahead, loads⟩
  case shared =>
    -- The outcome that is read first is still in the cell when the other one is read.
    have one {j k n u : Nat} {identity : String} {cell : Nat}
        {outcome outcome' : Except GraphError ModuleId} (later : j ≤ k)
        (first : (moments j).inquiries n = some ⟨identity, .leaving cell outcome⟩)
        (second : (moments k).inquiries u = some ⟨identity, .leaving cell outcome'⟩) :
        outcome = outcome' := by
      obtain ⟨_, there, rfl⟩ := (sound j).held n _ _ _ first rfl
      obtain ⟨_, there', rfl⟩ := (sound k).held u _ _ _ second rfl
      cases (unfolds.filled distinct later there).symm.trans there'
      rfl
    intro j k n u identity cell outcome outcome' first second
    rcases Nat.le_total j k with later | later
    · exact one later first second
    · exact (one later second first).symm
  case spared =>
    intro k identity cell flies
    rcases unfolds.next k with same | next
    · exact .inl (same ▸ flies)
    · exact next.spares flies
  case clear =>
    intro k identity idle calm
    cases flies : (moments k).inFlight identity with
    | none => rfl
    | some cell =>
      obtain ⟨n, crashed⟩ := ((sound k).vacant idle flies).2
      exact absurd crashed (calm n)
  case again =>
    intro j k n identity outcome later idle absent unused returned
    exact unfolds.reloaded distinct later idle absent unused returned
  case alone =>
    intro k n identity ℓ loader source result stock outcome unused free ran returned
    exact run_of_obtain unused free ran returned

/-- Where steps lead is a moment of what happens. -/
theorem of_reached (reached : ReflTransGen Next (.quiet r) s) :
    ∃ moments k, Unfolds r moments ∧ moments k = s := by
  induction reached with
  | refl => exact ⟨fun _ => .quiet r, 0, ⟨rfl, fun _ => .inl rfl⟩, rfl⟩
  | @tail s s' _ next ih =>
    obtain ⟨moments, k, unfolds, now⟩ := ih
    refine ⟨fun j => if j ≤ k then moments j else s', k + 1, ⟨?_, fun j => ?_⟩, if_neg (by simp)⟩
    · exact (if_pos (Nat.zero_le k)).trans unfolds.start
    · rcases Nat.lt_trichotomy j k with before | rfl | after
      · rw [if_pos (Nat.succ_le_of_lt before), if_pos (Nat.le_of_lt before)]
        exact unfolds.next j
      · rw [if_neg (by simp), if_pos (Nat.le_refl j), now]
        exact .inr next
      · rw [if_neg (by omega), if_neg (by omega)]
        exact .inl rfl

end Unfolds

end Intake

/-- After any history, whatever callers ask for modules at once and however they take turns,
their loads are coalesced. -/
theorem Site.loads_coalesced {σ ℓ : Type} (setup : Setup κ σ ℓ) (memo : σ) (source : ℓ)
    (calls : List (Call κ σ ℓ)) {moments : Nat → Intake κ}
    (unfolds : Intake.Unfolds ((start memo source).run setup calls).registry moments) :
    Intake.Coalesced moments :=
  unfolds.coalesced (distinct_of_run setup memo source calls)

/-- A caller asks for a module that is offline. -/
theorem Site.lost_refused : ∃ moments k, Intake.Unfolds Sample.prepared.registry moments ∧
    (moments k).inquiries 0 =
      some ⟨"lost", .answered (.error (.fetch "lost" "offline"))⟩ ∧
    Intake.Coalesced moments := by
  have absent : Sample.prepared.registry.lookup "lost" = none := by decide +kernel
  have ran : (Loads.obtain (fun _ source => (.unfetched "offline", source)) "lost").outcome
      ⟨Sample.prepared.registry, ()⟩ =
        (.error (.failed (.fetch "lost" "offline")), ⟨Sample.prepared.registry, ()⟩) := by
    rw [Loads.outcome_obtain]
    simp only [absent]
    rw [Loads.outcome_load]
  obtain ⟨s, reached, _, _, inquiries⟩ :=
    Intake.run_of_obtain (s := .quiet _) (n := 0) rfl (fun _ => rfl) ran rfl
  obtain ⟨moments, k, unfolds, rfl⟩ := Intake.Unfolds.of_reached reached
  refine ⟨moments, k, unfolds, ?_,
    Site.loads_coalesced Sample.setup () () Sample.preparation unfolds⟩
  rw [inquiries]
  rfl

end MixedModules
