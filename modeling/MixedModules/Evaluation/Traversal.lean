import MixedModules.Evaluation.Imports
import MixedModules.Evaluation.Instantiation
import MixedModules.Registry.Basic

/-! Evaluating modules, dependencies first.

A traversal goes down from an entry. It claims each component it reaches and keeps
the claim until the module by which it came in is finished, so a component is
evaluated by one traversal. When that module fails, so do all members that are not
completed, and whoever comes later meets the recorded failure. -/
namespace MixedModules

/-- The modules of an engine in the world they act on. -/
structure Machine (κ σ : Type) where
  registry : Registry κ
  world : World κ σ

/-- What gives code its meaning, and how deep calls may nest. -/
structure Interpreter (κ σ : Type) where
  embedder : Embedder κ σ
  depth : Nat

def Interpreter.calls {κ σ : Type} (i : Interpreter κ σ) : Calls κ σ :=
  Calls.ofDepth i.embedder i.depth

namespace World

variable {κ σ : Type}

/-- Observes the imports of a module, in the order in which they are bound. -/
def observeImports (e : EnvironmentId) (environment : Environment) :
    Run (World κ σ) Unit :=
  environment.imports.values.forM fun b => change (Store.observeImport e environment b)

/-- Own bindings that were never touched may not be read from now on. -/
def enterDeadZones (environment : Environment) : Run (World κ σ) Unit :=
  environment.locals.values.forM fun slot =>
    modifyStore fun s => s.modifySlot slot Slot.enterDeadZone

/-- Runs one module: its imports, then its body. -/
def runModule (interpreter : Interpreter κ σ) (e : EnvironmentId) (record : Record κ) :
    Run (World κ σ) Unit := do
  let environment ← reading fun s => s.environment e
  observeImports e environment
  match record.body with
  | .script code =>
    enterDeadZones environment
    match code with
    | some code => (interpreter.embedder.body code e).run interpreter.calls
    | none => pure ()
  | .binary body => instantiate interpreter.calls e environment.identity record body

end World

namespace Machine

variable {κ σ : Type}

/-- A step in the world. -/
def inWorld {α : Type} (x : Run (World κ σ) α) : Run (Machine κ σ) α := fun m =>
  let (outcome, world) := x m.world
  (outcome, { m with world })

def modifyRegistry (change : Registry κ → Registry κ) : Run (Machine κ σ) Unit :=
  modify fun m => { m with registry := change m.registry }

def instanceOf (m : ModuleId) : Run (Machine κ σ) (Instance κ) := do
  match (← get).registry.get? m with
  | some i => return i
  | none => throw (.notLinked m.text)

/-- Takes the claim of a component, if it is free. -/
def acquire (traversal : Nat) (identity : String) (c : ComponentId) :
    Run (Machine κ σ) Acquired := do
  match (← get).registry.component? c with
  | some component =>
    let (acquired, component) := component.acquire traversal
    modifyRegistry fun r => r.setComponent c component
    return acquired
  | none => throw (.notLinked identity)

/-- Enters one module: its imports are observed, then its body runs. -/
def execute (interpreter : Interpreter κ σ) (m : ModuleId) : Run (Machine κ σ) Unit := do
  let i ← instanceOf m
  match i.environment with
  | none => throw (.notLinked i.identity)
  | some e =>
    modifyRegistry fun r => r.enter m
    inWorld (World.runModule interpreter e i.record)

/-- Evaluates a module after what it depends on, and records the outcome. -/
def evaluateModule (interpreter : Interpreter κ σ) (visit : ModuleId → Run (Machine κ σ) Unit)
    (m : ModuleId) : Run (Machine κ σ) Unit := do
  modifyRegistry fun r => r.setProgress m .inProgress
  let i ← instanceOf m
  let result ← Run.attempt do
    i.targets.forM visit
    execute interpreter m
  modifyRegistry fun r => r.setProgress m (match result with
    | .ok _ => .completed
    | .error e => .errored e)
  liftM result

/-- Visits a module for a traversal. On no way down does a module come twice, so a
depth above the number of modules is enough. -/
def visit (interpreter : Interpreter κ σ) (traversal : Nat) :
    Nat → ModuleId → Run (Machine κ σ) Unit
  | 0, _ => Run.blocked
  | depth + 1, m => do
    let i ← instanceOf m
    match i.component with
    | none => throw (.notLinked i.identity)
    | some c =>
      match ← acquire traversal i.identity c with
      | .blocked => Run.blocked
      | .released =>
        match (← instanceOf m).progress with
        | .errored e => throw e
        | _ => pure ()
      | .reentered =>
        match (← instanceOf m).progress with
        | .notStarted => evaluateModule interpreter (visit interpreter traversal depth) m
        | .errored e => throw e
        | .inProgress | .completed => pure ()
      | .root =>
        let result ← Run.attempt (evaluateModule interpreter (visit interpreter traversal depth) m)
        match result with
        | .error e => modifyRegistry fun r => r.sweep c e
        | .ok _ => pure ()
        modifyRegistry fun r => r.release c
        liftM result

/-- Evaluates a module and all it depends on. -/
def evaluate (interpreter : Interpreter κ σ) (traversal : Nat) (entry : ModuleId) :
    Run (Machine κ σ) Unit := do
  visit interpreter traversal ((← get).registry.size + 1) entry

end Machine
end MixedModules
