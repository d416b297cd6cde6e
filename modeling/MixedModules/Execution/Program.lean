import MixedModules.Store.Operation

/-! Programs: what module bodies and functions do.

A program is finished, with a result or a failure, or makes a request and goes on
with the answer. It sees nothing but answers, so all that any code can do to its
surroundings is listed in the type of requests. Code is a label of the embedder's
own type `κ`, and `σ` is what the embedder keeps between requests. -/
namespace MixedModules

/-- What a program can ask for. -/
inductive Request (κ σ : Type) where
  | operate (o : Operation κ)
  | call (f : FunctionId) (arguments : List Value)
  | invoke (f : FunctionId) (arguments : List Raw)
  | kept
  | keep (memo : σ)

/-- What a request answers if it does not fail. -/
@[reducible] def Request.Answer {κ σ : Type} : Request κ σ → Type
  | operate o => o.Answer
  | call .. => Value
  | invoke .. => List Raw
  | kept => σ
  | keep _ => Unit

/-- A computation that acts through requests only. -/
inductive Program (κ σ α : Type) where
  | done (result : Except EvalError α)
  | request (r : Request κ σ) (next : Except EvalError r.Answer → Program κ σ α)

namespace Program

variable {κ σ α β : Type}

/-- Runs one program and goes on with its result or failure. -/
def handle (p : Program κ σ α) (next : Except EvalError α → Program κ σ β) : Program κ σ β :=
  match p with
  | done result => next result
  | request r answered => request r fun answer => (answered answer).handle next

/-- Goes on with the result. A failure ends the whole. -/
def bind (p : Program κ σ α) (next : α → Program κ σ β) : Program κ σ β :=
  p.handle fun result => match result with
    | .ok a => next a
    | .error e => done (.error e)

instance : Monad (Program κ σ) where
  pure a := done (.ok a)
  bind := bind

instance : MonadExcept EvalError (Program κ σ) where
  throw e := done (.error e)
  tryCatch p recover := p.handle fun result => match result with
    | .ok a => done (.ok a)
    | .error e => recover e

theorem handle_done (p : Program κ σ α) : p.handle done = p := by
  induction p with
  | done result => rfl
  | request r next ih => simp [handle, ih]

theorem handle_handle {γ : Type} (p : Program κ σ α) (f : Except EvalError α → Program κ σ β)
    (g : Except EvalError β → Program κ σ γ) :
    (p.handle f).handle g = p.handle fun result => (f result).handle g := by
  induction p with
  | done result => rfl
  | request r next ih => simp [handle, ih]

/-- A program of one request. -/
def ask (r : Request κ σ) : Program κ σ r.Answer := request r done

/-- A program of one operation on the store. -/
def operate (o : Operation κ) : Program κ σ o.Answer := ask (.operate o)

def ofExcept (result : Except EvalError α) : Program κ σ α := done result

/-- An operation on values alone, with its fault as the failure. -/
def ofFault (result : Except TypeFault α) : Program κ σ α := done (result.mapError .type)

def call (f : FunctionId) (arguments : List Value) : Program κ σ Value := ask (.call f arguments)

def invoke (f : FunctionId) (arguments : List Raw) : Program κ σ (List Raw) :=
  ask (.invoke f arguments)

/-- Changes what the embedder keeps. -/
def modify (change : σ → σ) : Program κ σ Unit := do
  let memo ← ask .kept
  ask (.keep (change memo))

/-! ## Globals as values -/

/-- The number in a global, as a script module sees it. -/
def readGlobalValue (g : GlobalId) : Program κ σ Value := do
  return .ofRaw (← operate (.readGlobal g)).value

/-- Brings a value to the type of a global and stores it there. -/
def writeGlobalValue (g : GlobalId) (value : Value) : Program κ σ Unit := do
  let type := (← operate (.readGlobal g)).type
  operate (.writeGlobal g (← ofFault (value.toRaw type.value)))

/-! ## Names of a module -/

/-- Calls a function by its name: in a script module any name in scope, in a binary
module an entity. -/
def callName (home : EnvironmentId) (name : String) (arguments : List Value) :
    Program κ σ Value := do
  let callee ← match ← operate (.moduleKind home) with
    | .script => operate (.readName home name)
    | .binary => operate (.readEntity home name)
  match callee with
  | .function f => call f arguments
  | other => throw (.type (.notFunction name other.typeName))

/-- Calls an entity of a binary module with raw numbers. -/
def invokeName (home : EnvironmentId) (name : String) (arguments : List Raw) :
    Program κ σ (List Raw) := do
  match ← operate (.readEntityOf .function home name) with
  | .function f => invoke f arguments
  | other => throw (.type (.notFunction name other.typeName))

end Program
end MixedModules
