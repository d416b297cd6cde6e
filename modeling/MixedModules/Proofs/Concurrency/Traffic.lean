import Mathlib.Logic.Function.Basic
import MixedModules.Proofs.Evaluation.Simulation

/-! Several traversals at once.

Any number of traversals share the modules of an engine. What each of them does is cut into
the steps in which it touches a module or a component, and any of them may take the next
step. The body of a module is entered in one step and ends in another one, with whatever
outcome. A traversal that meets a component which another one holds takes no step. -/
namespace MixedModules
open Relation

/-- A module that a traversal has begun. It has visited what the module depends on, but for
the rest. While another module is visited for its sake, that module is the first of the rest. -/
structure Frame where
  module : ModuleId
  component : ComponentId
  root : Bool
  rest : List ModuleId

/-- The step in which a traversal visits a module. -/
inductive Phase where
  /-- It is about to ask for the component of the module. -/
  | arriving (m : ModuleId)
  /-- The component is released, and the outcome of the module is about to be read. -/
  | meeting (m : ModuleId)
  /-- The component is its own already, and the progress of the module is about to be read. -/
  | looking (m : ModuleId) (c : ComponentId)
  /-- The module is about to be marked as being in progress. -/
  | beginning (m : ModuleId) (c : ComponentId) (root : Bool)
  /-- The rest of what the module depends on is to be visited, and then it is entered. -/
  | visiting (f : Frame)
  /-- The body of the module runs. -/
  | running (f : Frame)
  /-- The outcome of the module is about to be recorded. -/
  | ending (f : Frame) (outcome : Except EvalError Unit)
  /-- The failure is about to be recorded for the other members of the component. -/
  | sweeping (m : ModuleId) (c : ComponentId) (e : EvalError)
  /-- The component is about to be released. -/
  | releasing (m : ModuleId) (c : ComponentId) (outcome : Except EvalError Unit)
  /-- The visit is over. -/
  | leaving (m : ModuleId) (outcome : Except EvalError Unit)

/-- A traversal: the module it visits, and below it those that wait for this one, the latest
first. -/
structure Walk where
  phase : Phase
  below : List Frame

/-- What a visit gives that finds a module as it is. -/
def Progress.outcome : Progress → Except EvalError Unit
  | .errored e => .error e
  | _ => .ok ()

/-- What is recorded of a module that has ended. -/
def Progress.after : Except EvalError Unit → Progress
  | .ok _ => .completed
  | .error e => .errored e

/-- How a traversal goes on when it has asked for a component. -/
def Acquired.phase (m : ModuleId) (c : ComponentId) : Acquired → Phase
  | .root => .beginning m c true
  | .reentered => .looking m c
  | .released => .meeting m
  | .blocked => .arriving m

/-- How a traversal goes on when the outcome of a module is recorded. Only the module by which
the component was reached has to do with the other members. -/
def Frame.close (f : Frame) : Except EvalError Unit → Phase
  | .error e => if f.root then .sweeping f.module f.component e else .leaving f.module (.error e)
  | .ok _ => if f.root then .releasing f.module f.component (.ok ()) else .leaving f.module (.ok ())

variable {κ σ : Type}

/-- The steps of the traversal with the number `t`, which change the registry as well. -/
inductive Walk.Moves (r : Registry κ) (t : Nat) : Walk → Walk → Registry κ → Prop where
  | unknown {m : ModuleId} {below : List Frame} (absent : r.get? m = none) :
      Moves r t ⟨.arriving m, below⟩ ⟨.leaving m (.error (.notLinked m.text)), below⟩ r
  | unlinked {m : ModuleId} {i : Instance κ} {below : List Frame} (known : r.get? m = some i)
      (apart : i.component = none) :
      Moves r t ⟨.arriving m, below⟩ ⟨.leaving m (.error (.notLinked i.identity)), below⟩ r
  | missing {m : ModuleId} {i : Instance κ} {c : ComponentId} {below : List Frame}
      (known : r.get? m = some i) (place : i.component = some c) (absent : r.component? c = none) :
      Moves r t ⟨.arriving m, below⟩ ⟨.leaving m (.error (.notLinked i.identity)), below⟩ r
  | acquire {m : ModuleId} {i : Instance κ} {c : ComponentId} {component : Component}
      {below : List Frame} (known : r.get? m = some i) (place : i.component = some c)
      (there : r.component? c = some component) (unblocked : (component.acquire t).1 ≠ .blocked) :
      Moves r t ⟨.arriving m, below⟩ ⟨(component.acquire t).1.phase m c, below⟩
        (r.setComponent c (component.acquire t).2)
  | meet {m : ModuleId} {i : Instance κ} {below : List Frame} (known : r.get? m = some i) :
      Moves r t ⟨.meeting m, below⟩ ⟨.leaving m i.progress.outcome, below⟩ r
  | look {m : ModuleId} {c : ComponentId} {i : Instance κ} {below : List Frame}
      (known : r.get? m = some i) (begun : i.progress ≠ .notStarted) :
      Moves r t ⟨.looking m c, below⟩ ⟨.leaving m i.progress.outcome, below⟩ r
  | join {m : ModuleId} {c : ComponentId} {i : Instance κ} {below : List Frame}
      (known : r.get? m = some i) (waiting : i.progress = .notStarted) :
      Moves r t ⟨.looking m c, below⟩ ⟨.beginning m c false, below⟩ r
  | begin {m : ModuleId} {c : ComponentId} {root : Bool} {i : Instance κ} {below : List Frame}
      (known : r.get? m = some i) :
      Moves r t ⟨.beginning m c root, below⟩ ⟨.visiting ⟨m, c, root, i.targets⟩, below⟩
        (r.setProgress m .inProgress)
  | descend {f : Frame} {target : ModuleId} {below : List Frame}
      (next : f.rest.head? = some target) :
      Moves r t ⟨.visiting f, below⟩ ⟨.arriving target, f :: below⟩ r
  | lost {f : Frame} {below : List Frame} (spent : f.rest = []) (absent : r.get? f.module = none) :
      Moves r t ⟨.visiting f, below⟩ ⟨.ending f (.error (.notLinked f.module.text)), below⟩ r
  | homeless {f : Frame} {i : Instance κ} {below : List Frame} (spent : f.rest = [])
      (known : r.get? f.module = some i) (homeless : i.environment = none) :
      Moves r t ⟨.visiting f, below⟩ ⟨.ending f (.error (.notLinked i.identity)), below⟩ r
  | enter {f : Frame} {i : Instance κ} {e : EnvironmentId} {below : List Frame}
      (spent : f.rest = []) (known : r.get? f.module = some i) (home : i.environment = some e) :
      Moves r t ⟨.visiting f, below⟩ ⟨.running f, below⟩ (r.enter f.module)
  | finish {f : Frame} {below : List Frame} (outcome : Except EvalError Unit) :
      Moves r t ⟨.running f, below⟩ ⟨.ending f outcome, below⟩ r
  | record {f : Frame} {outcome : Except EvalError Unit} {below : List Frame} :
      Moves r t ⟨.ending f outcome, below⟩ ⟨f.close outcome, below⟩
        (r.setProgress f.module (.after outcome))
  | sweep {m : ModuleId} {c : ComponentId} {e : EvalError} {below : List Frame} :
      Moves r t ⟨.sweeping m c e, below⟩ ⟨.releasing m c (.error e), below⟩ (r.sweep c e)
  | release {m : ModuleId} {c : ComponentId} {outcome : Except EvalError Unit}
      {below : List Frame} :
      Moves r t ⟨.releasing m c outcome, below⟩ ⟨.leaving m outcome, below⟩ (r.release c)
  | resume {m : ModuleId} {f : Frame} {below : List Frame} :
      Moves r t ⟨.leaving m (.ok ()), f :: below⟩
        ⟨.visiting { f with rest := f.rest.tail }, below⟩ r
  | fail {m : ModuleId} {f : Frame} {e : EvalError} {below : List Frame} :
      Moves r t ⟨.leaving m (.error e), f :: below⟩ ⟨.ending f (.error e), below⟩ r

/-- Modules with the traversals that are under way or over, by number. -/
structure Traffic (κ : Type) where
  registry : Registry κ
  walks : Nat → Option Walk

namespace Traffic

/-- No traversal has started. -/
def quiet (r : Registry κ) : Traffic κ := ⟨r, fun _ => none⟩

/-- What the traversal with the number `t` can do next. It starts at any module. -/
inductive Steps (t : Nat) : Traffic κ → Traffic κ → Prop where
  | start {s : Traffic κ} (entry : ModuleId) (unused : s.walks t = none) :
      Steps t s ⟨s.registry, Function.update s.walks t (some ⟨.arriving entry, []⟩)⟩
  | move {s : Traffic κ} {w w' : Walk} {r' : Registry κ} (here : s.walks t = some w)
      (moves : w.Moves s.registry t w' r') :
      Steps t s ⟨r', Function.update s.walks t (some w')⟩

/-- Some traversal takes a step. -/
def Next (s s' : Traffic κ) : Prop := ∃ t, Steps t s s'

/-- A traversal has started and is not over. -/
def Unfinished (s : Traffic κ) (t : Nat) : Prop :=
  ∃ w, s.walks t = some w ∧ ∀ m outcome, w ≠ ⟨.leaving m outcome, []⟩

end Traffic

namespace Registry

/-- The claim of a component. -/
def claim? (r : Registry κ) (c : ComponentId) : Option Claim := (r.component? c).map (·.claim)

/-- The claim of the component of a module. -/
def claimOf? (r : Registry κ) (m : ModuleId) : Option Claim := (r.componentOf? m).bind r.claim?

/-- A traversal holds the component of a module. -/
def Holds (r : Registry κ) (t : Nat) (m : ModuleId) : Prop := r.claimOf? m = some (.held t)

/-- The evaluation of a module is over. -/
def Over (r : Registry κ) (m : ModuleId) : Prop :=
  r.progressOf? m = some .completed ∨ ∃ e, r.progressOf? m = some (.errored e)

end Registry

/-- A traversal waits for another one, which holds the component it asks for. -/
def Traffic.Waits (s : Traffic κ) (t other : Nat) : Prop :=
  other ≠ t ∧ ∃ m below, s.walks t = some ⟨.arriving m, below⟩ ∧ s.registry.Holds other m

end MixedModules
