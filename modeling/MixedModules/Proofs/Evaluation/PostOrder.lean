import MixedModules.Execution.Calls
import MixedModules.Proofs.Registry.Linkage

/-! The order in which modules are to run.

A plain depth-first search follows the dependencies of each module in the order of
asking and lists a module after what it depends on. It knows nothing of components and
of claims: it only leaves out what it has seen itself and what an earlier evaluation
has completed, and it stops where an earlier evaluation has failed. -/
namespace MixedModules

variable {κ σ : Type}

/-- The search, below the modules of `path`, the latest first, with `todo` to visit. It
lists each module with the path that leads to it, ends with `after` seen, and stops for
the failure of a module that it meets. -/
inductive PostOrder (r : Registry κ) : (path todo seen : List ModuleId) →
    (order : List (ModuleId × List ModuleId)) → (stop : Option EvalError) →
    (after : List ModuleId) → Prop where
  | done {path seen : List ModuleId} : PostOrder r path [] seen [] none seen
  | skip {path todo seen after : List ModuleId} {order : List (ModuleId × List ModuleId)}
      {stop : Option EvalError} {m : ModuleId}
      (finished : m ∈ seen ∨ r.progressOf? m = some .completed)
      (rest : PostOrder r path todo seen order stop after) :
      PostOrder r path (m :: todo) seen order stop after
  | stop {path todo seen : List ModuleId} {m : ModuleId} {e : EvalError} (fresh : m ∉ seen)
      (failed : r.progressOf? m = some (.errored e)) :
      PostOrder r path (m :: todo) seen [] (some e) seen
  | enter {path todo seen between after : List ModuleId}
      {first second : List (ModuleId × List ModuleId)} {stop : Option EvalError} {m : ModuleId}
      {i : Instance κ} (fresh : m ∉ seen) (known : r.get? m = some i)
      (waiting : i.progress = .notStarted)
      (below : PostOrder r (m :: path) i.targets (m :: seen) first none between)
      (rest : PostOrder r path todo between second stop after) :
      PostOrder r path (m :: todo) seen (first ++ (m, m :: path) :: second) stop after
  | cut {path todo seen after : List ModuleId} {order : List (ModuleId × List ModuleId)}
      {e : EvalError} {m : ModuleId} {i : Instance κ} (fresh : m ∉ seen)
      (known : r.get? m = some i) (waiting : i.progress = .notStarted)
      (below : PostOrder r (m :: path) i.targets (m :: seen) order (some e) after) :
      PostOrder r path (m :: todo) seen order (some e) after

namespace PostOrder

variable {r : Registry κ} {path todo seen after : List ModuleId}
  {order : List (ModuleId × List ModuleId)} {stop : Option EvalError}

theorem kept (search : PostOrder r path todo seen order stop after) :
    ∀ m ∈ seen, m ∈ after := by
  induction search with
  | done => exact fun _ held => held
  | skip _ _ ih => exact ih
  | stop => exact fun _ held => held
  | enter _ _ _ _ _ below rest =>
    exact fun m held => rest m (below m (List.mem_cons_of_mem _ held))
  | cut _ _ _ _ below => exact fun m held => below m (List.mem_cons_of_mem _ held)

/-- A search that does not stop has seen all it was to visit, but for what is completed. -/
theorem covers (search : PostOrder r path todo seen order none after) :
    ∀ m ∈ todo, m ∈ after ∨ r.progressOf? m = some .completed := by
  generalize stopped : (none : Option EvalError) = stop at search
  induction search with
  | done => simp
  | skip finished rest ih =>
    intro m member
    rcases List.mem_cons.mp member with rfl | member
    · exact finished.imp_left (rest.kept _)
    · exact ih stopped m member
  | stop => cases stopped
  | enter _ _ _ below rest _ ih =>
    intro m member
    rcases List.mem_cons.mp member with rfl | member
    · exact .inl (rest.kept _ (below.kept _ List.mem_cons_self))
    · exact ih stopped m member
  | cut => cases stopped

private theorem not_finished {m : ModuleId} {progress : Progress} (fresh : m ∉ seen)
    (known : r.progressOf? m = some progress) (unfinished : progress ≠ .completed) :
    ¬ (m ∈ seen ∨ r.progressOf? m = some .completed) := by
  rintro (held | completed)
  · exact fresh held
  · rw [known] at completed
    exact unfinished (Option.some.inj completed)

private theorem progressOf?_of_get? {m : ModuleId} {i : Instance κ} (known : r.get? m = some i)
    (waiting : i.progress = .notStarted) : r.progressOf? m = some .notStarted :=
  Registry.progressOf?_eq_some_iff.mpr ⟨i, known, waiting⟩

/-- The search has one outcome. -/
theorem unique (search : PostOrder r path todo seen order stop after)
    {order' : List (ModuleId × List ModuleId)} {stop' : Option EvalError} {after' : List ModuleId}
    (other : PostOrder r path todo seen order' stop' after') :
    order = order' ∧ stop = stop' ∧ after = after' := by
  induction search generalizing order' stop' after' with
  | done =>
    cases other
    exact ⟨rfl, rfl, rfl⟩
  | skip finished _ ih =>
    cases other with
    | skip _ rest => exact ih rest
    | stop fresh failed => exact absurd finished (not_finished fresh failed (by simp))
    | enter fresh known waiting =>
      exact absurd finished (not_finished fresh (progressOf?_of_get? known waiting) (by simp))
    | cut fresh known waiting =>
      exact absurd finished (not_finished fresh (progressOf?_of_get? known waiting) (by simp))
  | stop fresh failed =>
    cases other with
    | skip finished => exact absurd finished (not_finished fresh failed (by simp))
    | stop _ failed' =>
      rw [failed] at failed'
      cases failed'
      exact ⟨rfl, rfl, rfl⟩
    | enter _ known waiting =>
      rw [progressOf?_of_get? known waiting] at failed
      cases failed
    | cut _ known waiting =>
      rw [progressOf?_of_get? known waiting] at failed
      cases failed
  | enter fresh known waiting _ _ ihBelow ihRest =>
    cases other with
    | skip finished =>
      exact absurd finished (not_finished fresh (progressOf?_of_get? known waiting) (by simp))
    | stop _ failed =>
      rw [progressOf?_of_get? known waiting] at failed
      cases failed
    | enter _ known' _ below rest =>
      cases known.symm.trans known'
      obtain ⟨rfl, _, rfl⟩ := ihBelow below
      obtain ⟨rfl, rfl, rfl⟩ := ihRest rest
      exact ⟨rfl, rfl, rfl⟩
    | cut _ known' _ below =>
      cases known.symm.trans known'
      cases (ihBelow below).2.1
  | cut fresh known waiting _ ih =>
    cases other with
    | skip finished =>
      exact absurd finished (not_finished fresh (progressOf?_of_get? known waiting) (by simp))
    | stop _ failed =>
      rw [progressOf?_of_get? known waiting] at failed
      cases failed
    | enter _ known' _ below =>
      cases known.symm.trans known'
      cases (ih below).2.1
    | cut _ known' _ below =>
      cases known.symm.trans known'
      exact ih below

/-- Modules that are seen were seen before or are registered, and each is seen once. -/
private theorem seen_nodup (search : PostOrder r path todo seen order stop after)
    (distinct : seen.Nodup) (registered : ∀ m ∈ seen, m.index < r.size) :
    after.Nodup ∧ ∀ m ∈ after, m.index < r.size := by
  induction search with
  | done => exact ⟨distinct, registered⟩
  | skip _ _ ih => exact ih distinct registered
  | stop => exact ⟨distinct, registered⟩
  | enter fresh known _ _ _ below rest =>
    obtain ⟨distinct', registered'⟩ := below (List.nodup_cons.mpr ⟨fresh, distinct⟩) (by
      simpa using ⟨Registry.lt_size_of_get? known, registered⟩)
    exact rest distinct' registered'
  | cut fresh known _ _ below =>
    exact below (List.nodup_cons.mpr ⟨fresh, distinct⟩) (by
      simpa using ⟨Registry.lt_size_of_get? known, registered⟩)

/-- Where nothing is in progress, the search comes to an end from every module whose
dependencies are registered. -/
theorem exists_of_closed {inside : ModuleId → Prop}
    (ready : ∀ m, inside m → ∃ i, r.get? m = some i ∧ i.progress ≠ .inProgress)
    (closed : ∀ m target, inside m → r.DependsOn m target → inside target)
    (todo : List ModuleId) (within : ∀ m ∈ todo, inside m) (distinct : seen.Nodup)
    (registered : ∀ m ∈ seen, m.index < r.size) :
    ∃ order stop after, PostOrder r path todo seen order stop after := by
  generalize bound : r.size - seen.length = room
  induction room using Nat.strongRecOn generalizing todo seen path with
  | ind room ih =>
    induction todo generalizing seen with
    | nil => exact ⟨[], none, seen, .done⟩
    | cons m rest ihRest =>
      have inRest := fun other member => within other (List.mem_cons_of_mem m member)
      by_cases finished : m ∈ seen ∨ r.progressOf? m = some .completed
      · obtain ⟨order, stop, after, search⟩ := ihRest inRest distinct registered bound
        exact ⟨order, stop, after, .skip finished search⟩
      rw [not_or] at finished
      obtain ⟨fresh, uncompleted⟩ := finished
      obtain ⟨i, known, idle⟩ := ready m (within m List.mem_cons_self)
      have here := Registry.lt_size_of_get? known
      cases progress : i.progress with
      | inProgress => exact absurd progress idle
      | completed =>
        exact absurd (Registry.progressOf?_eq_some_iff.mpr ⟨i, known, progress⟩) uncompleted
      | errored e =>
        exact ⟨[], some e, seen, .stop fresh
          (Registry.progressOf?_eq_some_iff.mpr ⟨i, known, progress⟩)⟩
      | notStarted =>
        have distinct' : (m :: seen).Nodup := List.nodup_cons.mpr ⟨fresh, distinct⟩
        have registered' : ∀ x ∈ m :: seen, x.index < r.size := by simpa using ⟨here, registered⟩
        have places := Registry.length_le_size distinct' registered'
        have room' : ∀ later : List ModuleId, (∀ x ∈ m :: seen, x ∈ later) →
            r.size - later.length < room := by
          intro later kept
          have longer := (List.subperm_of_subset distinct' kept).length_le
          rw [List.length_cons] at longer places
          omega
        have targets : ∀ x ∈ i.targets, inside x := fun x member =>
          closed m x (within m List.mem_cons_self) ⟨i, known, member⟩
        obtain ⟨first, stop, between, below⟩ := ih _ (room' (m :: seen) fun _ h => h) i.targets
          targets distinct' registered' rfl
        cases stop with
        | some e => exact ⟨first, some e, between, .cut fresh known progress below⟩
        | none =>
          obtain ⟨distinctBetween, registeredBetween⟩ := below.seen_nodup distinct' registered'
          obtain ⟨second, stop, after, search⟩ := ih _ (room' between below.kept) rest inRest
            distinctBetween registeredBetween rfl
          exact ⟨_, stop, after, .enter fresh known progress below search⟩

end PostOrder

/-! ## Running in order -/

section Order

variable {α ς : Type} {run : α → Run ς Unit} {stop : Option EvalError}

/-- Runs one after the other, up to the first failure, and ends with `stop` if nothing
fails before. Tells also what was run. -/
def runInOrder (run : α → Run ς Unit) (stop : Option EvalError) :
    List α → ς → List α × Option (Except EvalError Unit) × ς
  | [], s => ([], some (match stop with
    | none => .ok ()
    | some e => .error e), s)
  | a :: rest, s =>
    match run a s with
    | (some (.ok _), s) =>
      let (ran, outcome, s) := runInOrder run stop rest s
      (a :: ran, outcome, s)
    | (outcome, s) => ([a], outcome, s)

/-- What comes later is run if all that comes first succeeds. -/
theorem runInOrder_append (first second : List α) (s : ς) :
    runInOrder run stop (first ++ second) s = match runInOrder run none first s with
      | (ran, some (.ok _), s) =>
        let (more, outcome, s) := runInOrder run stop second s
        (ran ++ more, outcome, s)
      | other => other := by
  induction first generalizing s with
  | nil => simp [runInOrder]
  | cons a rest ih =>
    simp only [List.cons_append, runInOrder]
    rcases run a s with ⟨_ | _ | _, s'⟩
    · rfl
    · rfl
    · simp only [ih]
      rcases runInOrder run none rest s' with ⟨ran, _ | _ | _, s''⟩ <;> rfl

/-- What ran is the order up to some point: all of it, or up to what did not succeed. -/
theorem runInOrder_prefix (order : List α) (s : ς) :
    (runInOrder run stop order s).1 <+: order := by
  induction order generalizing s with
  | nil => simp [runInOrder]
  | cons a rest ih =>
    simp only [runInOrder]
    rcases run a s with ⟨_ | _ | _, s'⟩
    · exact ⟨rest, rfl⟩
    · exact ⟨rest, rfl⟩
    · exact List.prefix_cons_inj a |>.mpr (ih s')

/-- What every run keeps holds at the end, and a failure is that of a run made while it
held, or what was in the way. -/
theorem runInOrder_keeps {holds : ς → Prop} (order : List α)
    (keeps : ∀ a ∈ order, ∀ s, holds s → holds (run a s).2) {s : ς} (start : holds s) :
    holds (runInOrder run stop order s).2.2 ∧
      ∀ e, (runInOrder run stop order s).2.1 = some (.error e) →
        stop = some e ∨ ∃ a ∈ order, ∃ s', holds s' ∧ (run a s').1 = some (.error e) := by
  induction order generalizing s with
  | nil =>
    refine ⟨start, fun e fails => .inl ?_⟩
    cases stop with
    | none => cases fails
    | some e' =>
      cases fails
      rfl
  | cons a rest ih =>
    have here := keeps a List.mem_cons_self s start
    simp only [runInOrder]
    rcases result : run a s with ⟨_ | e' | _, s'⟩ <;> rw [result] at here
    · exact ⟨here, fun e fails => by cases fails⟩
    · refine ⟨here, fun e fails => .inr ⟨a, List.mem_cons_self, s, start, ?_⟩⟩
      cases fails
      rw [result]
    · obtain ⟨last, failure⟩ := ih (fun b member => keeps b (List.mem_cons_of_mem a member)) here
      refine ⟨last, fun e fails => (failure e fails).imp_right fun found => ?_⟩
      obtain ⟨b, member, s'', held, raised⟩ := found
      exact ⟨b, List.mem_cons_of_mem a member, s'', held, raised⟩

/-- All runs succeed, one after the other. -/
def RunThrough (run : α → Run ς Unit) : List α → ς → ς → Prop
  | [], s, s' => s = s'
  | a :: rest, s, s' => ∃ between, run a s = (some (.ok ()), between) ∧ RunThrough run rest between s'

/-- What runs through is run to its end. -/
theorem RunThrough.runInOrder {order : List α} {s s' : ς} (through : RunThrough run order s s') :
    runInOrder run stop order s = (order, some (match stop with
      | none => .ok ()
      | some e => .error e), s') := by
  induction order generalizing s with
  | nil =>
    cases through
    rfl
  | cons a rest ih =>
    obtain ⟨between, here, later⟩ := through
    rw [MixedModules.runInOrder, here]
    simp only [ih later]

/-- How runs in order end, with what was run: all succeed, or all succeed and then `stop`
is in the way, or one after some that succeed does not, and nothing later is run. -/
inductive InOrder (run : α → Run ς Unit) (s : ς) (order : List α) : (stop : Option EvalError) →
    (ran : List α) → (outcome : Option (Except EvalError Unit)) → (s' : ς) → Prop where
  | all {s' : ς} (through : RunThrough run order s s') : InOrder run s order none order (some (.ok ())) s'
  | met {s' : ς} {e : EvalError} (through : RunThrough run order s s') :
      InOrder run s order (some e) order (some (.error e)) s'
  | cut {stop : Option EvalError} {first rest : List α} {a : α} {between s' : ς}
      {outcome : Option (Except EvalError Unit)} (parts : order = first ++ a :: rest)
      (through : RunThrough run first s between) (fails : run a between = (outcome, s'))
      (unsuccessful : outcome ≠ some (.ok ())) : InOrder run s order stop (first ++ [a]) outcome s'

/-- Runs in order end in one of these ways. -/
theorem inOrder_runInOrder (run : α → Run ς Unit) (stop : Option EvalError) (order : List α) (s : ς) :
    InOrder run s order stop (runInOrder run stop order s).1 (runInOrder run stop order s).2.1
      (runInOrder run stop order s).2.2 := by
  induction order generalizing s with
  | nil =>
    cases stop with
    | none => exact .all rfl
    | some e => exact .met rfl
  | cons a rest ih =>
    rcases here : run a s with ⟨outcome, s'⟩
    by_cases success : outcome = some (.ok ())
    · subst success
      have later := ih s'
      simp only [runInOrder, here]
      generalize runInOrder run stop rest s' = result at later
      obtain ⟨ran, outcome, last⟩ := result
      cases later with
      | all through => exact .all ⟨s', here, through⟩
      | met through => exact .met ⟨s', here, through⟩
      | @cut _ first _ b _ _ _ parts through fails unsuccessful =>
        have parts' : a :: rest = (a :: first) ++ b :: _ := congrArg (a :: ·) parts
        exact .cut parts' ⟨s', here, through⟩ fails unsuccessful
    · have only : runInOrder run stop (a :: rest) s = ([a], outcome, s') := by
        rw [runInOrder, here]
        rcases outcome with _ | _ | _
        · rfl
        · rfl
        · exact absurd rfl success
      rw [only]
      have start : RunThrough run [] s s := rfl
      have parts : a :: rest = [] ++ a :: rest := rfl
      exact .cut parts start here success

/-- Success means that everything was run. -/
theorem InOrder.complete {s s' : ς} {order ran : List α} {outcome : Option (Except EvalError Unit)}
    (ended : InOrder run s order stop ran outcome s') (succeeds : outcome = some (.ok ())) :
    ran = order := by
  cases ended with
  | all => rfl
  | met => rfl
  | cut _ _ _ unsuccessful => exact absurd succeeds unsuccessful

/-- Runs in order succeed if nothing is in the way and all of them do. -/
theorem runInOrder_ok_iff {order : List α} {s : ς} :
    (runInOrder run stop order s).2.1 = some (.ok ()) ↔
      stop = none ∧ ∃ s', RunThrough run order s s' := by
  constructor
  · intro succeeds
    have ended := inOrder_runInOrder run stop order s
    generalize runInOrder run stop order s = result at ended succeeds
    obtain ⟨ran, outcome, s'⟩ := result
    cases ended with
    | all through => exact ⟨rfl, s', through⟩
    | met => cases succeeds
    | cut _ _ _ unsuccessful => exact absurd succeeds unsuccessful
  · rintro ⟨rfl, s', through⟩
    rw [through.runInOrder]

end Order
end MixedModules
