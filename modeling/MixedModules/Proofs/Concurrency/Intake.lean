import Mathlib.Logic.Function.Basic
import MixedModules.Proofs.History.Distinct

/-! Several requests for modules at once.

Any number of callers ask for modules by identity. A caller looks an identity up, and if it is
not registered, it looks again under the lock on the loads in flight. If it is still not
registered, the caller takes hold of the cell for the load in flight, or it opens one. One of
the holders of a cell loads, and the others wait for the outcome. A caller that has the outcome
takes the cell out of flight, if no newer one is there. Whenever it is asked, the loader may
give another answer. -/
namespace MixedModules

variable {κ : Type}

/-- How a load comes out for the callers that wait for it, unless the loader crashes. -/
def Loads.returned? : Except Stop ModuleId → Option (Except GraphError ModuleId)
  | .ok m => some (.ok m)
  | .error (.failed e) => some (.error e)
  | .error .crashed => none

/-- What is in a cell. -/
inductive LoadCell.Contents where
  /-- Nobody loads for the cell. -/
  | vacant
  /-- A caller does. -/
  | busy (caller : Nat)
  /-- The load is over. -/
  | filled (outcome : Except GraphError ModuleId)

/-- A cell for the outcome of one load of an identity. -/
structure LoadCell where
  identity : String
  contents : LoadCell.Contents

/-- How far a caller has come. -/
inductive Inquiry.Phase where
  /-- It is about to look the identity up. -/
  | asking
  /-- It has found nothing, and is about to look again under the lock. -/
  | missing
  /-- It holds a cell, whose outcome it is about to read. -/
  | holding (cell : Nat)
  /-- It is the one that loads for the cell, and has asked the loader. -/
  | loading (cell : Nat)
  /-- It has the outcome, and is about to take the cell out of flight. -/
  | leaving (cell : Nat) (outcome : Except GraphError ModuleId)
  /-- It has returned. -/
  | answered (outcome : Except GraphError ModuleId)
  /-- The loader has crashed on it. -/
  | crashed

/-- A caller and the identity that it asks for. -/
structure Inquiry where
  identity : String
  phase : Inquiry.Phase

/-- The registered modules, the loads in flight and the callers, by number. -/
structure Intake (κ : Type) where
  registry : Registry κ
  inFlight : String → Option Nat
  cells : Array LoadCell
  inquiries : Nat → Option Inquiry

namespace Intake

/-- Nobody has asked. -/
def quiet (r : Registry κ) : Intake κ := ⟨r, fun _ => none, #[], fun _ => none⟩

/-- A caller goes on. -/
def put (s : Intake κ) (n : Nat) (identity : String) (phase : Inquiry.Phase) : Intake κ :=
  { s with inquiries := Function.update s.inquiries n (some ⟨identity, phase⟩) }

/-- What is in a cell changes. -/
def fill (s : Intake κ) (cell : Nat) (identity : String) (contents : LoadCell.Contents) :
    Intake κ :=
  { s with cells := s.cells.setIfInBounds cell ⟨identity, contents⟩ }

/-- A cell is opened and put in flight. -/
def open_ (s : Intake κ) (identity : String) : Intake κ :=
  { s with
    inFlight := Function.update s.inFlight identity (some s.cells.size)
    cells := s.cells.push ⟨identity, .vacant⟩ }

/-- A cell is taken out of flight, if it is the one in flight. -/
def remove (s : Intake κ) (identity : String) (cell : Nat) : Intake κ :=
  { s with inFlight :=
    if s.inFlight identity = some cell then Function.update s.inFlight identity none
    else s.inFlight }

/-- The steps of the caller with the number `n`. -/
inductive Steps (n : Nat) : Intake κ → Intake κ → Prop where
  | start {s : Intake κ} (identity : String) (unused : s.inquiries n = none) :
      Steps n s (s.put n identity .asking)
  | find {s : Intake κ} {identity : String} {m : ModuleId}
      (here : s.inquiries n = some ⟨identity, .asking⟩)
      (found : s.registry.lookup identity = some m) :
      Steps n s (s.put n identity (.answered (.ok m)))
  | miss {s : Intake κ} {identity : String} (here : s.inquiries n = some ⟨identity, .asking⟩)
      (absent : s.registry.lookup identity = none) : Steps n s (s.put n identity .missing)
  | findLate {s : Intake κ} {identity : String} {m : ModuleId}
      (here : s.inquiries n = some ⟨identity, .missing⟩)
      (found : s.registry.lookup identity = some m) :
      Steps n s (s.put n identity (.answered (.ok m)))
  | join {s : Intake κ} {identity : String} {cell : Nat}
      (here : s.inquiries n = some ⟨identity, .missing⟩)
      (absent : s.registry.lookup identity = none) (flies : s.inFlight identity = some cell) :
      Steps n s (s.put n identity (.holding cell))
  | launch {s : Intake κ} {identity : String} (here : s.inquiries n = some ⟨identity, .missing⟩)
      (absent : s.registry.lookup identity = none) (none_ : s.inFlight identity = none) :
      Steps n s ((s.open_ identity).put n identity (.holding s.cells.size))
  | begin {s : Intake κ} {identity : String} {cell : Nat}
      (here : s.inquiries n = some ⟨identity, .holding cell⟩)
      (there : s.cells[cell]? = some ⟨identity, .vacant⟩) :
      Steps n s ((s.fill cell identity (.busy n)).put n identity (.loading cell))
  | finish {s : Intake κ} {ℓ : Type} {identity : String} {cell : Nat} {stock : Stock κ ℓ}
      {result : Except Stop ModuleId} {outcome : Except GraphError ModuleId}
      (loader : Loader κ ℓ) (source : ℓ) (here : s.inquiries n = some ⟨identity, .loading cell⟩)
      (ran : (Loads.load loader identity).outcome ⟨s.registry, source⟩ = (result, stock))
      (returned : Loads.returned? result = some outcome) :
      Steps n s (({ s with registry := stock.registry }.fill cell identity (.filled outcome)).put n
        identity (.leaving cell outcome))
  | crash {s : Intake κ} {ℓ : Type} {identity : String} {cell : Nat} {stock : Stock κ ℓ}
      (loader : Loader κ ℓ) (source : ℓ) (here : s.inquiries n = some ⟨identity, .loading cell⟩)
      (ran : (Loads.load loader identity).outcome ⟨s.registry, source⟩ = (.error .crashed, stock)) :
      Steps n s ((s.fill cell identity .vacant).put n identity .crashed)
  | read {s : Intake κ} {identity : String} {cell : Nat} {outcome : Except GraphError ModuleId}
      (here : s.inquiries n = some ⟨identity, .holding cell⟩)
      (there : s.cells[cell]? = some ⟨identity, .filled outcome⟩) :
      Steps n s (s.put n identity (.leaving cell outcome))
  | leave {s : Intake κ} {identity : String} {cell : Nat} {outcome : Except GraphError ModuleId}
      (here : s.inquiries n = some ⟨identity, .leaving cell outcome⟩) :
      Steps n s ((s.remove identity cell).put n identity (.answered outcome))

/-- Some caller takes a step, or the engine works on what is registered. -/
inductive Next : Intake κ → Intake κ → Prop where
  | call {s s' : Intake κ} (n : Nat) (steps : Steps n s s') : Next s s'
  | work {s : Intake κ} {r' : Registry κ}
      (same : ∀ m identity, r'.Bears m identity ↔ s.registry.Bears m identity) :
      Next s { s with registry := r' }

/-- A caller has not returned. -/
def Active (s : Intake κ) (n : Nat) : Prop :=
  ∃ q, s.inquiries n = some q ∧ q.phase ≠ .crashed ∧ ∀ outcome, q.phase ≠ .answered outcome

end Intake

/-- The cell that a caller holds. -/
def Inquiry.Phase.cell? : Inquiry.Phase → Option Nat
  | holding cell => some cell
  | loading cell => some cell
  | leaving cell _ => some cell
  | _ => none

/-- A caller that loads has the cell to itself, and what a caller has read is in the cell. -/
def Inquiry.Phase.Fits (n : Nat) (contents : LoadCell.Contents) : Inquiry.Phase → Prop
  | loading _ => contents = .busy n
  | leaving _ outcome => contents = .filled outcome
  | _ => True

/-- A caller that waits for a cell fits whatever gets into it. -/
theorem Inquiry.Phase.Fits.waits {n : Nat} {old contents : LoadCell.Contents} {phase : Inquiry.Phase}
    (fits : phase.Fits n old) (unowned : old ≠ .busy n) (due : ∀ outcome, old ≠ .filled outcome) :
    phase.Fits n contents := by
  cases phase with
  | loading _ => exact absurd fits unowned
  | leaving _ outcome => exact absurd fits (due outcome)
  | _ => trivial

namespace Intake

variable {s s' : Intake κ} {n k : Nat} {identity : String} {cell other : Nat}
  {before phase : Inquiry.Phase} {old contents : LoadCell.Contents}

theorem put_inquiries : (s.put n identity phase).inquiries k =
    if k = n then some ⟨identity, phase⟩ else s.inquiries k :=
  Function.update_apply ..

theorem put_self : (s.put n identity phase).inquiries n = some ⟨identity, phase⟩ :=
  Function.update_self ..

theorem put_other (apart : k ≠ n) : (s.put n identity phase).inquiries k = s.inquiries k :=
  Function.update_of_ne apart ..

theorem fill_cells {label : String} (there : s.cells[cell]? = some ⟨label, old⟩) :
    (s.fill cell identity contents).cells[other]? =
      if other = cell then some ⟨identity, contents⟩ else s.cells[other]? := by
  obtain ⟨inside, _⟩ := Array.getElem?_eq_some_iff.mp there
  rw [fill, Array.getElem?_setIfInBounds]
  by_cases same : cell = other
  · rw [if_pos same, if_pos inside, if_pos same.symm]
  · rw [if_neg same, if_neg fun same' => same same'.symm]

theorem open_cells : (s.open_ identity).cells[other]? =
    if other = s.cells.size then some ⟨identity, .vacant⟩ else s.cells[other]? :=
  Array.getElem?_push ..

theorem open_cells_self :
    (s.open_ identity).cells[s.cells.size]? = some ⟨identity, .vacant⟩ := by
  rw [open_cells, if_pos rfl]

theorem open_inFlight {label : String} : (s.open_ identity).inFlight label =
    if label = identity then some s.cells.size else s.inFlight label :=
  Function.update_apply ..

/-- Only the very cell is taken out of flight. -/
theorem remove_inFlight {label : String} : (s.remove identity cell).inFlight label = some other ↔
    s.inFlight label = some other ∧ ¬ (label = identity ∧ other = cell) := by
  unfold remove
  dsimp only
  split
  · next flies =>
    rw [Function.update_apply]
    split
    · next same =>
      subst same
      rw [flies]
      simp [eq_comm]
    · next apart => simp [apart]
  · next flies =>
    refine ⟨fun flies' => ⟨flies', ?_⟩, And.left⟩
    rintro ⟨rfl, rfl⟩
    exact flies flies'

/-- What holds between any two steps. A cell without an outcome is in flight, and nothing is
registered for it yet. A cell in flight has a holder, or a crash has left it vacant. -/
structure Sound (s : Intake κ) : Prop where
  distinct : s.registry.Distinct
  labelled : ∀ identity cell, s.inFlight identity = some cell →
    ∃ contents, s.cells[cell]? = some ⟨identity, contents⟩
  held : ∀ n identity phase cell, s.inquiries n = some ⟨identity, phase⟩ → phase.cell? = some cell →
    ∃ contents, s.cells[cell]? = some ⟨identity, contents⟩ ∧ phase.Fits n contents
  pending : ∀ cell identity contents, s.cells[cell]? = some ⟨identity, contents⟩ →
    (∀ outcome, contents ≠ .filled outcome) →
      s.inFlight identity = some cell ∧ ∀ m, ¬ s.registry.Bears m identity
  filled : ∀ (cell : Nat) identity m, s.cells[cell]? = some ⟨identity, .filled (.ok m)⟩ →
    s.registry.Bears m identity
  answered : ∀ n identity m, s.inquiries n = some ⟨identity, .answered (.ok m)⟩ →
    s.registry.Bears m identity
  awaited : ∀ identity cell, s.inFlight identity = some cell →
    (∃ n phase, s.inquiries n = some ⟨identity, phase⟩ ∧ phase.cell? = some cell) ∨
      s.cells[cell]? = some ⟨identity, .vacant⟩ ∧ ∃ n, s.inquiries n = some ⟨identity, .crashed⟩

namespace Sound

theorem quiet {r : Registry κ} (distinct : r.Distinct) : (Intake.quiet r).Sound where
  distinct := distinct
  labelled identity cell flies := by cases flies
  held n identity phase cell here := by cases here
  pending cell identity contents there := by cases there
  filled cell identity m there := by cases there
  answered n identity m here := by cases here
  awaited identity cell flies := by cases flies

/-- A caller may go on if it keeps hold of a cell in flight. -/
theorem put (sound : s.Sound)
    (fits : ∀ cell, phase.cell? = some cell →
      ∃ contents, s.cells[cell]? = some ⟨identity, contents⟩ ∧ phase.Fits n contents)
    (answers : ∀ m, phase = .answered (.ok m) → s.registry.Bears m identity)
    (keeps : ∀ label before, s.inquiries n = some ⟨label, before⟩ → before ≠ .crashed ∧
      ∀ cell, before.cell? = some cell → s.inFlight label = some cell →
        label = identity ∧ phase.cell? = some cell) : (s.put n identity phase).Sound where
  distinct := sound.distinct
  labelled := sound.labelled
  pending := sound.pending
  filled := sound.filled
  held k label before cell here holds := by
    rw [put_inquiries] at here
    split at here
    · next same =>
      cases here
      subst same
      exact fits cell holds
    · exact sound.held k label before cell here holds
  answered k label m here := by
    rw [put_inquiries] at here
    split at here
    · cases here
      exact answers m rfl
    · exact sound.answered k label m here
  awaited label cell flies := by
    rcases sound.awaited label cell flies with ⟨k, before, here, holds⟩ | ⟨vacant, k, here⟩
    · by_cases same : k = n
      · subst same
        obtain ⟨rfl, holds⟩ := (keeps label before here).2 cell holds flies
        exact .inl ⟨k, phase, put_self, holds⟩
      · exact .inl ⟨k, before, (put_other same).trans here, holds⟩
    · have apart : k ≠ n := by
        rintro rfl
        exact (keeps label .crashed here).1 rfl
      exact .inr ⟨vacant, k, (put_other apart).trans here⟩

theorem proceed (sound : s.Sound) (here : s.inquiries n = some ⟨identity, before⟩)
    (on : before ≠ .crashed)
    (keeps : ∀ cell, before.cell? = some cell → s.inFlight identity = some cell →
      phase.cell? = some cell)
    (fits : ∀ cell, phase.cell? = some cell →
      ∃ contents, s.cells[cell]? = some ⟨identity, contents⟩ ∧ phase.Fits n contents)
    (answers : ∀ m, phase = .answered (.ok m) → s.registry.Bears m identity) :
    (s.put n identity phase).Sound := by
  refine sound.put fits answers fun label before' here' => ?_
  cases here.symm.trans here'
  exact ⟨on, fun cell holds flies => ⟨rfl, keeps cell holds flies⟩⟩

/-- A caller that holds a cell without an outcome loads for it, has loaded, or crashes. -/
theorem fill {r' : Registry κ} (sound : s.Sound) (here : s.inquiries n = some ⟨identity, before⟩)
    (holds : before.cell? = some cell) (there : s.cells[cell]? = some ⟨identity, old⟩)
    (due : ∀ outcome, old ≠ .filled outcome) (own : ∀ k, old = .busy k → k = n)
    (distinct : r'.Distinct) (grows : ∀ m label, s.registry.Bears m label → r'.Bears m label)
    (news : ∀ m label, r'.Bears m label → s.registry.Bears m label ∨
      label = identity ∧ ∃ outcome, contents = .filled outcome)
    (filled : ∀ m, contents = .filled (.ok m) → r'.Bears m identity)
    (goes : phase.cell? = some cell ∧ phase.Fits n contents ∨
      phase = .crashed ∧ contents = .vacant) :
    ((({ s with registry := r' } : Intake κ).fill cell identity contents).put n identity
      phase).Sound := by
  have now (other : Nat) : (s.fill cell identity contents).cells[other]? =
      if other = cell then some ⟨identity, contents⟩ else s.cells[other]? := fill_cells there
  obtain ⟨flew, unknown⟩ := sound.pending cell identity old there due
  constructor
  case distinct => exact distinct
  case labelled =>
    intro label other flies
    change ∃ contents', (s.fill cell identity contents).cells[other]? = some ⟨label, contents'⟩
    obtain ⟨was, before⟩ := sound.labelled label other flies
    rw [now]
    split
    · next same =>
      subst same
      rw [there] at before
      cases before
      exact ⟨contents, rfl⟩
    · exact ⟨was, before⟩
  case held =>
    intro k label phase' other here' holds'
    change ∃ contents', (s.fill cell identity contents).cells[other]? = some ⟨label, contents'⟩ ∧ _
    rw [put_inquiries] at here'
    rw [now]
    by_cases same : k = n
    · subst same
      rw [if_pos rfl] at here'
      cases here'
      rcases goes with ⟨still, fits⟩ | ⟨rfl, _⟩
      · rw [still] at holds'
        cases holds'
        exact ⟨contents, if_pos rfl, fits⟩
      · cases holds'
    · rw [if_neg same] at here'
      obtain ⟨was, there', fits⟩ := sound.held k label phase' other here' holds'
      split
      · next same' =>
        subst same'
        rw [there] at there'
        cases there'
        exact ⟨contents, rfl, fits.waits (fun busy => same (own k busy)) due⟩
      · exact ⟨was, there', fits⟩
  case pending =>
    intro other label contents' there' open'
    change (s.fill cell identity contents).cells[other]? = _ at there'
    change s.inFlight label = some other ∧ ∀ m, ¬ r'.Bears m label
    rw [now] at there'
    split at there'
    · next same =>
      cases there'
      subst same
      refine ⟨flew, fun m bears => ?_⟩
      rcases news m identity bears with early | ⟨_, outcome, full⟩
      · exact unknown m early
      · exact open' outcome full
    · next apart =>
      obtain ⟨flies, unknown'⟩ := sound.pending other label contents' there' open'
      refine ⟨flies, fun m bears => ?_⟩
      rcases news m label bears with early | ⟨rfl, _⟩
      · exact unknown' m early
      · exact apart (Option.some.inj (flies.symm.trans flew))
  case filled =>
    intro other label m there'
    change (s.fill cell identity contents).cells[other]? = _ at there'
    rw [now] at there'
    split at there'
    · cases there'
      exact filled m rfl
    · exact grows m label (sound.filled other label m there')
  case answered =>
    intro k label m here'
    rw [put_inquiries] at here'
    split at here'
    · cases here'
      rcases goes with ⟨still, _⟩ | ⟨crash, _⟩
      · cases still
      · cases crash
    · exact grows m label (sound.answered k label m here')
  case awaited =>
    intro label other flies
    change s.inFlight label = some other at flies
    have mine : other = cell → label = identity := by
      rintro rfl
      obtain ⟨was, there'⟩ := sound.labelled label other flies
      rw [there] at there'
      cases there'
      rfl
    by_cases same : other = cell
    · cases mine same
      subst same
      rcases goes with ⟨still, _⟩ | ⟨rfl, rfl⟩
      · exact .inl ⟨n, phase, put_self, still⟩
      · exact .inr ⟨(now other).trans (if_pos rfl), n, put_self⟩
    · rcases sound.awaited label other flies with ⟨k, phase', here', holds'⟩ | ⟨vacant, k, here'⟩
      · have apart : k ≠ n := by
          rintro rfl
          rw [here] at here'
          cases here'
          exact same (Option.some.inj (holds'.symm.trans holds))
        exact .inl ⟨k, phase', (put_other apart).trans here', holds'⟩
      · have apart : k ≠ n := by
          rintro rfl
          rw [here] at here'
          cases here'
          cases holds
        have still := (now other).trans ((if_neg same).trans vacant)
        exact .inr ⟨still, k, (put_other apart).trans here'⟩

/-- A cell is put in flight where there is none. -/
theorem launch (sound : s.Sound) (here : s.inquiries n = some ⟨identity, .missing⟩)
    (absent : s.registry.lookup identity = none) (none_ : s.inFlight identity = none) :
    ((s.open_ identity).put n identity (.holding s.cells.size)).Sound := by
  have unknown := Registry.lookup_eq_none_iff.mp absent
  have kept {other : Nat} {found : LoadCell} (there : s.cells[other]? = some found) :
      (s.open_ identity).cells[other]? = some found := by
    obtain ⟨inside, _⟩ := Array.getElem?_eq_some_iff.mp there
    rw [open_cells, if_neg (Nat.ne_of_lt inside), there]
  constructor
  case distinct => exact sound.distinct
  case labelled =>
    intro label other flies
    change (s.open_ identity).inFlight label = some other at flies
    rw [open_inFlight] at flies
    split at flies
    · next same =>
      cases flies
      exact ⟨.vacant, same ▸ open_cells_self⟩
    · obtain ⟨contents, there⟩ := sound.labelled label other flies
      exact ⟨contents, kept there⟩
  case held =>
    intro k label phase other here' holds
    rw [put_inquiries] at here'
    split at here'
    · cases here'
      cases holds
      exact ⟨.vacant, open_cells_self, trivial⟩
    · obtain ⟨contents, there, fits⟩ := sound.held k label phase other here' holds
      exact ⟨contents, kept there, fits⟩
  case pending =>
    intro other label contents there due
    change (s.open_ identity).cells[other]? = _ at there
    change (s.open_ identity).inFlight label = some other ∧ _
    rw [open_cells] at there
    rw [open_inFlight]
    split at there
    · next last =>
      cases there
      exact ⟨last ▸ if_pos rfl, unknown⟩
    · obtain ⟨flies, unknown'⟩ := sound.pending other label contents there due
      refine ⟨(if_neg ?_).trans flies, unknown'⟩
      rintro rfl
      rw [none_] at flies
      cases flies
  case filled =>
    intro other label m there
    change (s.open_ identity).cells[other]? = _ at there
    rw [open_cells] at there
    split at there
    · cases there
    · exact sound.filled other label m there
  case answered =>
    intro k label m here'
    rw [put_inquiries] at here'
    split at here'
    · cases here'
    · exact sound.answered k label m here'
  case awaited =>
    intro label other flies
    change (s.open_ identity).inFlight label = some other at flies
    rw [open_inFlight] at flies
    split at flies
    · next same =>
      cases flies
      subst same
      exact .inl ⟨n, _, put_self, rfl⟩
    · rcases sound.awaited label other flies with ⟨k, phase, here', holds⟩ | ⟨vacant, k, here'⟩
      · have apart : k ≠ n := by
          rintro rfl
          rw [here] at here'
          cases here'
          cases holds
        exact .inl ⟨k, phase, (put_other apart).trans here', holds⟩
      · have apart : k ≠ n := by
          rintro rfl
          rw [here] at here'
          cases here'
        exact .inr ⟨kept vacant, k, (put_other apart).trans here'⟩

/-- A cell with an outcome may be taken out of flight. -/
theorem remove (sound : s.Sound) {outcome : Except GraphError ModuleId}
    (there : s.cells[cell]? = some ⟨identity, .filled outcome⟩) :
    (s.remove identity cell).Sound where
  distinct := sound.distinct
  labelled label other flies := sound.labelled label other (remove_inFlight.mp flies).1
  held := sound.held
  pending other label contents there' due := by
    obtain ⟨flies, unknown⟩ := sound.pending other label contents there' due
    refine ⟨remove_inFlight.mpr ⟨flies, ?_⟩, unknown⟩
    rintro ⟨rfl, rfl⟩
    cases there.symm.trans there'
    exact due outcome rfl
  filled := sound.filled
  answered := sound.answered
  awaited label other flies := sound.awaited label other (remove_inFlight.mp flies).1

theorem step (sound : s.Sound) (steps : Steps n s s') : s'.Sound := by
  have same : ∀ m label, s.registry.Bears m label → s.registry.Bears m label := fun _ _ => id
  cases steps with
  | start identity unused =>
    refine sound.put (fun cell holds => by cases holds) (fun m answer => by cases answer) ?_
    intro label before here
    cases unused.symm.trans here
  | find here found | findLate here found =>
    refine sound.proceed here (by simp) (fun cell holds => by cases holds)
      (fun cell holds => by cases holds) fun m answer => ?_
    cases answer
    exact Registry.bears_of_lookup found
  | miss here absent =>
    exact sound.proceed here (by simp) (fun cell holds => by cases holds)
      (fun cell holds => by cases holds) fun m answer => by cases answer
  | join here absent flies =>
    refine sound.proceed here (by simp) (fun cell holds => by cases holds) (fun cell holds => ?_)
      fun m answer => by cases answer
    cases holds
    obtain ⟨contents, there⟩ := sound.labelled _ _ flies
    exact ⟨contents, there, trivial⟩
  | launch here absent none_ => exact sound.launch here absent none_
  | begin here there =>
    refine sound.fill here rfl there (by simp) (by simp) sound.distinct same ?_ (by simp)
      (.inl ⟨rfl, rfl⟩)
    exact fun m label bears => .inl bears
  | finish loader source here ran returned =>
    obtain ⟨contents, there, fits⟩ := sound.held n _ _ _ here rfl
    cases fits
    have unknown := (sound.pending _ _ _ there (by simp)).2
    have absent := Registry.lookup_eq_none_iff.mpr unknown
    refine sound.fill here rfl there (by simp) (by simp) ?_ ?_ ?_ ?_ (.inl ⟨rfl, rfl⟩)
    all_goals
      rcases Loads.load_cases ran with ⟨record, rfl, registered⟩ | ⟨⟨reason, rfl⟩, kept⟩
    · rw [registered]
      exact sound.distinct.register absent
    · rw [kept]
      exact sound.distinct
    · intro m label bears
      rw [registered]
      exact Registry.bears_register.mpr (.inl bears)
    · rw [kept]
      exact same
    · intro m label bears
      rw [registered] at bears
      rcases Registry.bears_register.mp bears with early | ⟨_, named⟩
      · exact .inl early
      · exact .inr ⟨named.symm, _, rfl⟩
    · rw [kept]
      exact fun m label bears => .inl bears
    · intro m full
      cases returned
      cases full
      rw [registered]
      exact Registry.bears_register.mpr (.inr ⟨rfl, rfl⟩)
    · intro m full
      cases full
      cases reason <;> cases returned
  | crash loader source here ran =>
    obtain ⟨contents, there, fits⟩ := sound.held n _ _ _ here rfl
    cases fits
    refine sound.fill here rfl there (by simp) (by simp) sound.distinct same ?_ (by simp)
      (.inr ⟨rfl, rfl⟩)
    exact fun m label bears => .inl bears
  | read here there =>
    refine sound.proceed here (by simp) (fun other holds _ => holds) (fun other holds => ?_)
      fun m answer => by cases answer
    cases holds
    exact ⟨_, there, rfl⟩
  | leave here =>
    obtain ⟨contents, there, fits⟩ := sound.held n _ _ _ here rfl
    cases fits
    refine (sound.remove there).proceed here (by simp) (fun other holds flies => ?_)
      (fun other holds => by cases holds) fun m answer => ?_
    · cases holds
      exact absurd ⟨rfl, rfl⟩ (remove_inFlight.mp flies).2
    · cases answer
      exact sound.filled _ _ m there

/-- Whatever happens next, all stays sound. -/
theorem next (sound : s.Sound) (next : Next s s') : s'.Sound := by
  cases next with
  | call n steps => exact sound.step steps
  | @work r' same =>
    exact
      { sound with
        distinct := sound.distinct.transfer fun m identity => (same m identity).mp
        pending := fun cell identity contents there due =>
          have ⟨flies, unknown⟩ := sound.pending cell identity contents there due
          ⟨flies, fun m bears => unknown m ((same m identity).mp bears)⟩
        filled := fun cell identity m there =>
          (same m identity).mpr (sound.filled cell identity m there)
        answered := fun n identity m here =>
          (same m identity).mpr (sound.answered n identity m here) }

end Sound
end Intake
end MixedModules
