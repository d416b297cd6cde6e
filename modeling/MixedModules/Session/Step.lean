import MixedModules.Engine
import MixedModules.Expression.Transcript

/-! Steps of a session and what they answer.

A step names an engine by its place and refers to graphs and namespaces by the names
under which earlier steps stored them. Answers describe objects as they were when
the step ended. -/
namespace MixedModules

/-- A step of a session. -/
inductive Step where
  | build (entry name : String)
  | link (graph name : String)
  | evaluate (linked name : String)
  | run (entry name : String)
  | parallel (entries : List String)
  | describeNamespace (name : String)
  | readNamespace (name exported : String)
  | progress (identities : List String)
  | runCode (identity : String) (code : Code)
  | exports (identity : String)
  | imports (identity : String)
  | registered (identities : List String)
  | loads
  | insert (identity : String) (record : Record Code)
  | setFault (identity : String) (fault : Option (Loaded Code))

/-- A slot with a description of its value. -/
structure SlotView where
  slot : Slot
  value : Option Description

/-- An export in a namespace: its name, its slot and what reading it gives. -/
structure ExportView where
  name : String
  content : SlotContent
  read : Except EvalError Description

structure NamespaceView where
  identity : String
  exports : List ExportView

/-- An import after linking. -/
structure ImportView where
  binding : ImportBinding
  originIdentity : String
  target : SlotView
  own : SlotView
  read : Except EvalError Description

/-- What a step refers to and is not there. -/
inductive Missing where
  | graph
  | linkedGraph
  | moduleNamespace
  | environment
deriving DecidableEq, Repr

/-- What a step answers. -/
inductive Answer where
  | missing (what : Missing)
  | failed (e : EngineError)
  | graph (g : ModuleGraph)
  | linked (g : ModuleGraph)
  | moduleNamespace (view : NamespaceView)
  | several (answers : List Answer)
  | shown (result : Except EvalError Shown)
  | progress (states : List (Option Progress))
  | exports (identity : String) (kind : ModuleKind) (slots : List (String × Option SlotView))
  | imports (views : List ImportView)
  | registered (size : Nat) (known : List Bool)
  | loads (counts : Scope Nat)
  | shelf (size : Nat)
  | done

end MixedModules
