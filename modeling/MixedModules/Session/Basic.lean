import MixedModules.Registry.Shelf
import MixedModules.Session.Step
import MixedModules.Specifier.Lexical

/-! Sessions: engines that share one world and one shelf of records.

Every engine of a session resolves specifiers in the same way and has the same
limits, but has modules of its own. What a step makes is stored under a name only if
the step succeeds. -/
namespace MixedModules

/-- What does not change during a session. -/
structure Setting where
  resolver : Specifier.Resolver
  limits : BuildLimits

structure Session where
  engines : Array (Engine Code)
  shelf : Shelf Code
  scene : Scene
  graphs : Scope ModuleGraph
  linked : Scope LinkedGraph
  namespaces : Scope Namespace

/-- A part of a session. It has no outcome if calls nest too deep or the loader
crashes. -/
abbrev Sitting := StateT Session Option

namespace Session

def new (engines : Nat) (shelf : Shelf Code) : Session :=
  ⟨Array.replicate engines .new, shelf, .empty, .empty, .empty, .empty⟩

/-- Gives code its meaning. -/
def interpreter : Interpreter Code Notes := ⟨Code.embedder, Scene.callDepth⟩

/-! ## Views -/

def describe (value : Value) : Sitting Description := do
  return (← get).scene.store.describe value

def describeResult (result : Except EvalError Value) : Sitting (Except EvalError Description) := do
  return result.map (← get).scene.store.describe

def viewSlot (slot : SlotId) : Sitting SlotView := do
  let store := (← get).scene.store
  let slot := (store.slot? slot).getD default
  return ⟨slot, slot.value?.map store.describe⟩

def viewNamespace (ns : Namespace) : Sitting NamespaceView := do
  let exports ← ns.slots.mapM fun (name, slot) => do
    let view ← viewSlot slot
    return ⟨name, view.slot.content, ← describeResult view.slot.read⟩
  return ⟨ns.identity, exports⟩

def viewImport (registry : Registry Code) (e : EnvironmentId) (b : ImportBinding) :
    Sitting ImportView := do
  let identity := ((registry.get? b.origin).map (·.identity)).getD ""
  let read := (← get).scene.store.readImport e b.localName
  return ⟨b, identity, ← viewSlot b.target, ← viewSlot b.own, ← describeResult read⟩

/-! ## Stages -/

def engine (n : Nat) : Sitting (Engine Code) := do
  match (← get).engines[n]? with
  | some engine => return engine
  | none => failure

def setEngine (n : Nat) (engine : Engine Code) : Sitting Unit :=
  modify fun s => { s with engines := s.engines.setIfInBounds n engine }

def build (setting : Setting) (n : Nat) (entry : String) :
    Sitting (Except EngineError ModuleGraph) := do
  let (result, engine, shelf) :=
    (← engine n).build setting.resolver Shelf.loader setting.limits entry (← get).shelf
  setEngine n engine
  modify fun s => { s with shelf }
  match result with
  | .ok g => return .ok g
  | .error (.failed e) => return .error (.graph e)
  | .error .crashed => failure

def link (n : Nat) (g : ModuleGraph) : Sitting (Except EngineError LinkedGraph) := do
  match (← engine n).link g (← get).scene.store with
  | .ok (linked, engine, store) =>
    setEngine n engine
    modify fun s => { s with scene := s.scene.become store }
    return .ok linked
  | .error e => return .error (.link e)

def evaluate (n : Nat) (linked : LinkedGraph) : Sitting (Except EngineError Namespace) := do
  match (← engine n).evaluate interpreter linked (← get).scene with
  | (some result, engine, scene) =>
    setEngine n engine
    modify fun s => { s with scene }
    return result.mapError .eval
  | (none, _) => failure

/-- Builds, links and evaluates, up to the first failure. -/
def run (setting : Setting) (n : Nat) (entry : String) :
    Sitting (Except EngineError Namespace) := do
  match ← build setting n entry with
  | .error e => return .error e
  | .ok g =>
    match ← link n g with
    | .error e => return .error e
    | .ok linked => evaluate n linked

/-! ## Steps -/

def answerNamespace : Except EngineError Namespace → Sitting Answer
  | .ok ns => do return .moduleNamespace (← viewNamespace ns)
  | .error e => return .failed e

/-- Stores a namespace, if there is one. -/
def keepNamespace (name : String) (result : Except EngineError Namespace) : Sitting Unit :=
  match result with
  | .ok ns => modify fun s => { s with namespaces := s.namespaces.put name ns }
  | .error _ => pure ()

/-- Takes a step with the `n`-th engine. -/
def take (setting : Setting) (n : Nat) : Step → Sitting Answer
  | .build entry name => do
    match ← build setting n entry with
    | .ok g =>
      modify fun s => { s with graphs := s.graphs.put name g }
      return .graph g
    | .error e => return .failed e
  | .link graph name => do
    match (← get).graphs.get? graph with
    | none => return .missing .graph
    | some g =>
      match ← link n g with
      | .ok linked =>
        modify fun s => { s with linked := s.linked.put name linked }
        return .linked linked.graph
      | .error e => return .failed e
  | .evaluate linked name => do
    match (← get).linked.get? linked with
    | none => return .missing .linkedGraph
    | some linked =>
      let result ← evaluate n linked
      keepNamespace name result
      answerNamespace result
  | .run entry name => do
    let result ← run setting n entry
    keepNamespace name result
    answerNamespace result
  | .parallel entries => do
    let results ← entries.mapM (run setting n)
    return .several (← results.mapM answerNamespace)
  | .describeNamespace name => do
    match (← get).namespaces.get? name with
    | some ns => return .moduleNamespace (← viewNamespace ns)
    | none => return .missing .moduleNamespace
  | .readNamespace name exported => do
    let s ← get
    match s.namespaces.get? name with
    | some ns =>
      let result ← describeResult (ns.read s.scene.store exported)
      return .shown (result.map .value)
    | none => return .missing .moduleNamespace
  | .progress identities => do
    return .progress (identities.map (← engine n).progress?)
  | .runCode identity code => do
    match (← engine n).environment? identity with
    | none => return .missing .environment
    | some (e, _) =>
      match (← get).scene.perform (code.program ⟨some e, []⟩) with
      | some (result, scene) =>
        modify fun s => { s with scene }
        return .shown result
      | none => failure
  | .exports identity => do
    match (← engine n).environment? identity with
    | none => return .missing .environment
    | some (e, i) =>
      let slots := (((← get).scene.store.environment? e).map (·.exports)).getD .empty
      let views ← i.record.exports.mapM fun decl => do
        match slots.get? decl.name with
        | some slot => return (decl.name, some (← viewSlot slot))
        | none => return (decl.name, none)
      return .exports i.identity i.kind views
  | .imports identity => do
    let engine ← engine n
    match engine.environment? identity with
    | none => return .missing .environment
    | some (e, _) =>
      let bindings := (((← get).scene.store.environment? e).map (·.imports)).getD .empty
      return .imports (← bindings.sorted.mapM fun entry => viewImport engine.registry e entry.2)
  | .registered identities => do
    let registry := (← engine n).registry
    return .registered registry.size (identities.map fun i => (registry.lookup i).isSome)
  | .loads => do return .loads (← get).shelf.asked
  | .insert identity record => do
    modify fun s => { s with shelf := s.shelf.insert identity record }
    return .shelf (← get).shelf.records.size
  | .setFault identity fault => do
    modify fun s => { s with shelf := s.shelf.setFault identity fault }
    return .done

/-- Takes a step and gives its answer after what was logged meanwhile. -/
def takeLogged (setting : Setting) (n : Nat) (step : Step) : Sitting (Reply Answer) := do
  let answer ← take setting n step
  let (log, scene) := (← get).scene.takeLog
  modify fun s => { s with scene }
  return ⟨log, answer⟩

/-- Takes steps in order, each with the engine it names. -/
def takeAll (setting : Setting) (steps : List (Nat × Step)) : Sitting (List (Reply Answer)) :=
  steps.mapM fun (n, step) => takeLogged setting n step

end Session
end MixedModules
