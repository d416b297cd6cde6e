import MixedModules.Chronicle
import MixedModules.Fault
import MixedModules.Record.Basic
import MixedModules.Store.Slot

/-! The modules an engine knows, and how far each of them has come.

A module is registered once, under its identity, when its record is loaded. Later
stages attach to it: what its specifiers resolve to, its environment and its
component when it is linked, and its progress while it is evaluated. Modules that
depend on each other form one component, which one traversal at a time may claim. -/
namespace MixedModules

/-- The place of a component in the registry. -/
structure ComponentId where
  index : Nat
deriving DecidableEq, Repr, Inhabited

/-- How far the evaluation of a module has come. A failure is kept for good. -/
inductive Progress where
  | notStarted
  | inProgress
  | completed
  | errored (e : EvalError)
deriving DecidableEq, Repr, Inhabited

/-- Who may evaluate a component: anyone, one traversal, or nobody any more. -/
inductive Claim where
  | free
  | held (traversal : Nat)
  | released
deriving DecidableEq, Repr, Inhabited

/-- Modules that depend on each other, evaluated by one traversal. -/
structure Component where
  members : List ModuleId
  claim : Claim
deriving DecidableEq, Repr, Inhabited

/-- What a traversal finds when it reaches a component: it takes it now, it has it
already, another one has finished it, or another one still holds it. -/
inductive Acquired where
  | root
  | reentered
  | released
  | blocked
deriving DecidableEq, Repr

namespace Component

def new (members : List ModuleId) : Component := ⟨members, .free⟩

def acquire (c : Component) (traversal : Nat) : Acquired × Component :=
  match c.claim with
  | .free => (.root, { c with claim := .held traversal })
  | .held holder => (if holder = traversal then .reentered else .blocked, c)
  | .released => (.released, c)

def release (c : Component) : Component := { c with claim := .released }

end Component

/-- Specifiers of a module with what they resolved to, in the order of asking. -/
abbrev Dependencies := List (String × ModuleId)

/-- A registered module. -/
structure Instance (κ : Type) where
  identity : String
  record : Record κ
  dependencies : Option Dependencies
  environment : Option EnvironmentId
  component : Option ComponentId
  progress : Progress
deriving DecidableEq, Repr

namespace Instance

variable {κ : Type}

def new (identity : String) (record : Record κ) : Instance κ :=
  ⟨identity, record, none, none, none, .notStarted⟩

def kind (i : Instance κ) : ModuleKind := i.record.kind

def isLinked (i : Instance κ) : Bool := i.environment.isSome

/-- The module a specifier resolved to. -/
def dependency? (i : Instance κ) (specifier : String) : Option ModuleId := do
  let found ← (← i.dependencies).find? fun d => d.1 = specifier
  return found.2

/-- The modules depended on, in the order of asking. -/
def targets (i : Instance κ) : List ModuleId := (i.dependencies.getD []).map (·.2)

/-- The modules whose exports are given on. -/
def starTargets (i : Instance κ) : List ModuleId := i.record.stars.filterMap i.dependency?

end Instance

/-- The moment at which the evaluation of a module proper begins, with all modules as
they are then. -/
structure Entering (κ : Type) where
  module : ModuleId
  instances : Array (Instance κ)

/-- All modules of an engine, their components, and the modules that were entered. -/
structure Registry (κ : Type) where
  instances : Array (Instance κ)
  components : Array Component
  entered : Chronicle (Entering κ)

namespace Registry

variable {κ : Type}

def empty : Registry κ := ⟨#[], #[], .empty⟩

def size (r : Registry κ) : Nat := r.instances.size

def get? (r : Registry κ) (m : ModuleId) : Option (Instance κ) := r.instances[m.index]?

/-- The module with an identity. -/
def lookup (r : Registry κ) (identity : String) : Option ModuleId :=
  (r.instances.findIdx? fun i => i.identity = identity).map ModuleId.mk

/-- Registers a module under the next number. -/
def register (r : Registry κ) (identity : String) (record : Record κ) :
    ModuleId × Registry κ :=
  (⟨r.instances.size⟩, { r with instances := r.instances.push (.new identity record) })

def modify (r : Registry κ) (m : ModuleId) (change : Instance κ → Instance κ) : Registry κ :=
  { r with instances := r.instances.modify m.index change }

/-- Keeps what the specifiers of a module resolved to. The first result stays. -/
def setDependencies (r : Registry κ) (m : ModuleId) (dependencies : Dependencies) :
    Registry κ :=
  r.modify m fun i => { i with dependencies := i.dependencies <|> some dependencies }

def setProgress (r : Registry κ) (m : ModuleId) (progress : Progress) : Registry κ :=
  r.modify m fun i => { i with progress }

def component? (r : Registry κ) (c : ComponentId) : Option Component := r.components[c.index]?

def setComponent (r : Registry κ) (c : ComponentId) (component : Component) : Registry κ :=
  { r with components := r.components.setIfInBounds c.index component }

/-- Adds a component and makes its members refer to it. -/
def addComponent (r : Registry κ) (members : List ModuleId) : Registry κ :=
  let c : ComponentId := ⟨r.components.size⟩
  members.foldl (fun r m => r.modify m fun i => { i with component := some c })
    { r with components := r.components.push (.new members) }

/-- Notes that a module is entered, to observe its imports and run its body. -/
def enter (r : Registry κ) (m : ModuleId) : Registry κ :=
  { r with entered := r.entered.add ⟨m, r.instances⟩ }

/-- A failure takes all members along, save those that are completed. -/
def fail (r : Registry κ) (members : List ModuleId) (e : EvalError) : Registry κ :=
  members.foldl (fun r m => r.modify m fun i =>
    if i.progress = .completed then i else { i with progress := .errored e }) r

/-- Gives the claim of a component up for good. -/
def release (r : Registry κ) (c : ComponentId) : Registry κ :=
  match r.component? c with
  | some component => r.setComponent c component.release
  | none => r

/-- Marks the members of a component as failed, save those that are completed. -/
def sweep (r : Registry κ) (c : ComponentId) (e : EvalError) : Registry κ :=
  match r.component? c with
  | some component => r.fail component.members e
  | none => r

/-! ## Reading after a change -/

theorem lt_size_of_get? {r : Registry κ} {m : ModuleId} {i : Instance κ}
    (known : r.get? m = some i) : m.index < r.size :=
  (Array.getElem?_eq_some_iff.mp known).1

theorem get?_lookup {r : Registry κ} {identity : String} {m : ModuleId}
    (found : r.lookup identity = some m) : ∃ i, r.get? m = some i ∧ i.identity = identity := by
  obtain ⟨index, first, rfl⟩ := Option.map_eq_some_iff.mp found
  obtain ⟨inside, holds, _⟩ := Array.findIdx?_eq_some_iff_getElem.mp first
  exact ⟨_, Array.getElem?_eq_getElem inside, by simpa using holds⟩

theorem get?_register (r : Registry κ) (identity : String) (record : Record κ) (m : ModuleId) :
    (r.register identity record).2.get? m =
      if m.index = r.size then some (.new identity record) else r.get? m := by
  simp only [register, get?, size, Array.getElem?_push]
  rfl

@[simp] theorem component?_register (r : Registry κ) (identity : String) (record : Record κ)
    (c : ComponentId) : (r.register identity record).2.component? c = r.component? c := rfl

theorem get?_modify (r : Registry κ) (m other : ModuleId) (change : Instance κ → Instance κ) :
    (r.modify m change).get? other =
      if m = other then (r.get? other).map change else r.get? other := by
  by_cases same : m = other
  · subst same
    simp [modify, get?, Array.getElem?_modify]
  · have places : m.index ≠ other.index := fun h => same (by cases m; cases other; cases h; rfl)
    simp [modify, get?, Array.getElem?_modify, same, places]

@[simp] theorem component?_modify (r : Registry κ) (m : ModuleId)
    (change : Instance κ → Instance κ) (c : ComponentId) :
    (r.modify m change).component? c = r.component? c := rfl

@[simp] theorem entered_modify (r : Registry κ) (m : ModuleId)
    (change : Instance κ → Instance κ) : (r.modify m change).entered = r.entered := rfl

@[simp] theorem get?_setComponent (r : Registry κ) (c : ComponentId) (component : Component)
    (m : ModuleId) : (r.setComponent c component).get? m = r.get? m := rfl

@[simp] theorem entered_setComponent (r : Registry κ) (c : ComponentId) (component : Component) :
    (r.setComponent c component).entered = r.entered := rfl

theorem component?_setComponent (r : Registry κ) (c other : ComponentId) (component : Component) :
    (r.setComponent c component).component? other =
      if c = other then (r.component? other).map fun _ => component else r.component? other := by
  by_cases same : c = other
  · subst same
    by_cases inside : c.index < r.components.size
    · simp [setComponent, component?, inside]
    · simp [setComponent, component?, inside]
  · have places : c.index ≠ other.index := fun h => same (by cases c; cases other; cases h; rfl)
    simp [setComponent, component?, places, same]

/-- Putting back what is there changes nothing. -/
theorem setComponent_self {r : Registry κ} {c : ComponentId} {component : Component}
    (known : r.component? c = some component) : r.setComponent c component = r := by
  obtain ⟨inside, rfl⟩ := Array.getElem?_eq_some_iff.mp known
  simp [setComponent, Array.setIfInBounds, inside]

@[simp] theorem get?_enter (r : Registry κ) (m other : ModuleId) :
    (r.enter m).get? other = r.get? other := rfl

@[simp] theorem component?_enter (r : Registry κ) (m : ModuleId) (c : ComponentId) :
    (r.enter m).component? c = r.component? c := rfl

@[simp] theorem size_enter (r : Registry κ) (m : ModuleId) : (r.enter m).size = r.size := rfl

private theorem foldl_modify (members : List ModuleId) (change : Instance κ → Instance κ)
    (again : ∀ i, change (change i) = change i) (r : Registry κ) :
    let last := members.foldl (fun r m => r.modify m change) r
    (∀ m, last.get? m = if m ∈ members then (r.get? m).map change else r.get? m) ∧
      last.components = r.components ∧ last.entered = r.entered := by
  induction members generalizing r with
  | nil => simp
  | cons first rest ih =>
    obtain ⟨known, components, entered⟩ := ih (r.modify first change)
    refine ⟨fun m => ?_, components, entered⟩
    simp only [List.foldl_cons, known, get?_modify, List.mem_cons]
    by_cases same : first = m
    · subst same
      by_cases member : first ∈ rest <;> simp [member, Function.comp_def, again]
    · simp [same, Ne.symm same]

theorem get?_addComponent (r : Registry κ) (members : List ModuleId) (m : ModuleId) :
    (r.addComponent members).get? m =
      if m ∈ members then (r.get? m).map fun i => { i with component := some ⟨r.components.size⟩ }
      else r.get? m :=
  (foldl_modify members (fun i => { i with component := some ⟨r.components.size⟩ }) (fun _ => rfl)
    { r with components := r.components.push (.new members) }).1 m

theorem component?_addComponent (r : Registry κ) (members : List ModuleId) (c : ComponentId) :
    (r.addComponent members).component? c =
      if c.index = r.components.size then some (.new members) else r.component? c := by
  have components := (foldl_modify members
    (fun i => { i with component := some ⟨r.components.size⟩ }) (fun _ => rfl)
    { r with components := r.components.push (.new members) }).2.1
  rw [component?, addComponent, components, Array.getElem?_push]
  rfl

@[simp] theorem entered_addComponent (r : Registry κ) (members : List ModuleId) :
    (r.addComponent members).entered = r.entered :=
  (foldl_modify members (fun i => { i with component := some ⟨r.components.size⟩ })
    (fun _ => rfl) _).2.2

theorem get?_fail (r : Registry κ) (members : List ModuleId) (e : EvalError) (m : ModuleId) :
    (r.fail members e).get? m =
      if m ∈ members then (r.get? m).map fun i =>
        if i.progress = .completed then i else { i with progress := .errored e }
      else r.get? m :=
  (foldl_modify members _ (fun i => by split <;> simp [*]) r).1 m

@[simp] theorem component?_fail (r : Registry κ) (members : List ModuleId) (e : EvalError)
    (c : ComponentId) : (r.fail members e).component? c = r.component? c := by
  have components := (foldl_modify members
    (fun i : Instance κ => if i.progress = .completed then i else { i with progress := .errored e })
    (fun i => by split <;> simp [*]) r).2.1
  rw [component?, fail, components]
  rfl

@[simp] theorem entered_fail (r : Registry κ) (members : List ModuleId) (e : EvalError) :
    (r.fail members e).entered = r.entered :=
  (foldl_modify members
    (fun i : Instance κ => if i.progress = .completed then i else { i with progress := .errored e })
    (fun i => by split <;> simp [*]) r).2.2

@[simp] theorem entered_release (r : Registry κ) (c : ComponentId) :
    (r.release c).entered = r.entered := by
  unfold release
  cases r.component? c <;> rfl

@[simp] theorem entered_sweep (r : Registry κ) (c : ComponentId) (e : EvalError) :
    (r.sweep c e).entered = r.entered := by
  unfold sweep
  cases r.component? c with
  | none => rfl
  | some component => exact entered_fail r component.members e

end Registry
end MixedModules
