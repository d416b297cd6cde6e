import MixedModules.Chronicle
import MixedModules.Execution.Program

/-! Running programs and calling functions.

A run changes a state and ends with a result or with a failure, and what it did
before a failure stays done. It ends with neither only when calls nest deeper than
allowed: the depth is a number given in advance, so every run is finite.

A function with a signature is called with values by converting them to raw
numbers, and a function without one is called with raw numbers through an adapter,
so both sides of every such call are checked against the signature. -/
namespace MixedModules

/-- A computation over a state `ς`. It keeps its changes when it fails, and also when
it has no outcome because the depth of calls is used up. -/
abbrev Run (ς : Type) := ExceptT EvalError (OptionT (StateM ς))

namespace Run

variable {ς α : Type}

/-- The outcome as a value, so that a failure can be answered. -/
def attempt (x : Run ς α) : Run ς (Except EvalError α) := fun s =>
  let (outcome, s) := x s
  (outcome.map .ok, s)

/-- No outcome. -/
def blocked : Run ς α := fun s => (none, s)

variable {β : Type} (s : ς)

theorem pure_apply (a : α) : (pure a : Run ς α) s = (some (.ok a), s) := rfl

theorem throw_apply (e : EvalError) : (throw e : Run ς α) s = (some (.error e), s) := rfl

theorem bind_apply (x : Run ς α) (next : α → Run ς β) :
    (x >>= next) s = match x s with
      | (some (.ok a), s) => next a s
      | (some (.error e), s) => (some (.error e), s)
      | (none, s) => (none, s) := by
  simp only [bind, ExceptT.bind, ExceptT.mk, OptionT.bind, OptionT.mk, StateT.bind, ExceptT.bindCont]
  rcases x s with ⟨_ | _ | _, _⟩ <;> rfl

theorem get_apply : (get : Run ς ς) s = (some (.ok s), s) := rfl

theorem modify_apply (change : ς → ς) : (modify change : Run ς PUnit) s =
    (some (.ok ⟨⟩), change s) := rfl

theorem liftM_apply (result : Except EvalError α) :
    (liftM result : Run ς α) s = (some result, s) := by
  cases result <;> rfl

end Run

/-- The store with what the embedder keeps beside it, and all stores there have been,
the present one included. -/
structure World (κ σ : Type) where
  store : Store κ
  memo : σ
  past : Chronicle (Store κ)

namespace World

variable {κ σ α : Type}

def start (store : Store κ) (memo : σ) : World κ σ := ⟨store, memo, Chronicle.empty.add store⟩

/-- Goes on with another store. -/
def become (w : World κ σ) (store : Store κ) : World κ σ :=
  { w with store, past := w.past.add store }

/-- A change of the store as a step of a run. -/
def change (step : Change κ α) : Run (World κ σ) α := fun w =>
  match step w.store with
  | .ok (answer, store) => (some (.ok answer), w.become store)
  | .error e => (some (.error e), w)

/-- Reads the store. -/
def reading (read : Store κ → Except EvalError α) : Run (World κ σ) α :=
  change (Operation.reading read)

/-- Changes the store in a way that cannot fail. -/
def modifyStore (step : Store κ → Store κ) : Run (World κ σ) Unit :=
  change fun s => .ok ((), step s)

def fail (fault : TypeFault) : Run (World κ σ) α := throw (.type fault)

end World

/-- The meaning of code. A module body answers nothing, the code of a script
function gets the module it is closed over if there is one, and the code of a binary
function works on raw numbers. -/
structure Embedder (κ σ : Type) where
  body : κ → EnvironmentId → Program κ σ Unit
  script : κ → Option EnvironmentId → List Value → Program κ σ Value
  binary : κ → EnvironmentId → List Raw → Program κ σ (List Raw)

/-- The two ways to call a function. -/
structure Calls (κ σ : Type) where
  call : FunctionId → List Value → Run (World κ σ) Value
  invoke : FunctionId → List Raw → Run (World κ σ) (List Raw)

namespace Calls

variable {κ σ : Type}

/-- Grants a request. -/
def grant (calls : Calls κ σ) : (r : Request κ σ) → Run (World κ σ) r.Answer
  | .operate o => World.change o.perform
  | .call f arguments => calls.call f arguments
  | .invoke f arguments => calls.invoke f arguments
  | .kept => do return (← get).memo
  | .keep memo => modify fun w => { w with memo }

end Calls

/-- Runs a program, granting its requests one after the other. -/
def Program.run {κ σ α : Type} (calls : Calls κ σ) : Program κ σ α → Run (World κ σ) α
  | .done result => liftM result
  | .request r next => do
    let answer ← (calls.grant r).attempt
    (next answer).run calls

/-- Running a program and then what follows it is running both in turn. -/
theorem Program.run_bind {κ σ α β : Type} (calls : Calls κ σ) (p : Program κ σ α)
    (next : α → Program κ σ β) :
    (p.bind next).run calls = (p.run calls >>= fun a => (next a).run calls) := by
  induction p with
  | done result => cases result <;> rfl
  | request r answered ih =>
    simp only [Program.bind, Program.handle, Program.run, bind_assoc] at ih ⊢
    congr 1
    funext answer
    exact ih answer

/-- Whether raw numbers have given types, in number and in order. -/
def typesMatch (types : List NumType) (values : List Raw) : Bool := values.map Raw.type == types

namespace Calls

variable {κ σ : Type}

/-- Code runs only while the module it belongs to exists. -/
def requireHome (function : Function κ) (home : EnvironmentId) : Run (World κ σ) Unit := do
  if ((← get).store.environment? home).isNone then World.fail (.moduleGone function.name)

/-- Converts values to the parameters of a signature, in order. A missing value is
undefined, and further values are left out. -/
def convertArguments : List NumType → List Value → Except TypeFault (List Raw)
  | [], _ => .ok []
  | type :: types, arguments => do
    let raw ← (arguments.headD .undefined).toRaw type
    let rest ← convertArguments types arguments.tail
    return raw :: rest

/-- Calls a function with raw numbers, where `inner` runs what it calls in turn. -/
def invokeOver (embedder : Embedder κ σ) (inner : Calls κ σ) (f : FunctionId)
    (arguments : List Raw) : Run (World κ σ) (List Raw) := do
  let function ← World.reading fun s => s.function f
  match function.callable with
  | .binary type code home =>
    if !typesMatch type.params arguments then World.fail (.argumentTypes function.name)
    requireHome function home
    let results ← (embedder.binary code home arguments).run inner
    if !typesMatch type.results results then World.fail (.resultTypes function.name)
    return results
  | .adapter type target =>
    if !typesMatch type.params arguments then World.fail (.argumentTypes function.name)
    let result ← inner.call target (arguments.map Value.ofRaw)
    match type.results with
    | [] => return []
    | [single] =>
      let raw ← liftM ((result.toRaw single).mapError EvalError.type)
      return [raw]
    | several => World.fail (.adapterResults function.name several.length)
  | .script .. | .host _ => World.fail (.notBinaryCallable function.name)

/-- Calls a function of a signature with values: they are converted to raw numbers, and
a single result back to a value. -/
def callTyped (embedder : Embedder κ σ) (inner : Calls κ σ) (f : FunctionId) (name : String)
    (type : FuncType) (arguments : List Value) : Run (World κ σ) Value := do
  let raws ← liftM ((convertArguments type.params arguments).mapError EvalError.type)
  match ← invokeOver embedder inner f raws with
  | [] => return .undefined
  | [single] => return .ofRaw single
  | several => World.fail (.severalResults name several.length)

/-- Calls a function with values, where `inner` runs what it calls in turn. -/
def callOver (embedder : Embedder κ σ) (inner : Calls κ σ) (f : FunctionId)
    (arguments : List Value) : Run (World κ σ) Value := do
  let function ← World.reading fun s => s.function f
  match function.callable with
  | .script code home =>
    requireHome function home
    (embedder.script code (some home) arguments).run inner
  | .host code => (embedder.script code none arguments).run inner
  | .binary type .. | .adapter type _ =>
    callTyped embedder inner f function.name type arguments

/-- Calls that may nest to a given depth. -/
def ofDepth (embedder : Embedder κ σ) : Nat → Calls κ σ
  | 0 => ⟨fun _ _ => Run.blocked, fun _ _ => Run.blocked⟩
  | depth + 1 =>
    let inner := ofDepth embedder depth
    ⟨callOver embedder inner, invokeOver embedder inner⟩

end Calls
end MixedModules
