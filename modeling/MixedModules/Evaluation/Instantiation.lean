import MixedModules.Execution.Calls
import MixedModules.Record.Basic

/-! The second step of a binary module's evaluation: its definitions are made.

Globals, memories, tables and functions become entities, in this order. Then the
segments are applied one after the other, the start function runs, and at last all
exports get their values in one go. -/
namespace MixedModules

namespace Store

variable {κ : Type}

def defineGlobal (e : EnvironmentId) (d : GlobalDef) : Change κ Unit := fun s => do
  let initial ← match d.initial with
    | .constant value => pure value
    | .imported localName => do
      let g ← s.readEntityAs .global Value.global? e localName
      pure (← s.global g).value
  let (g, s) ← newGlobal d.type initial s
  return ((), s.install e d.name (.global g))

def defineMemory (e : EnvironmentId) (d : SizedDef) : Change κ Unit := fun s => do
  let (m, s) ← newMemory d.limits s
  return ((), s.install e d.name (.memory m))

def defineTable (e : EnvironmentId) (d : SizedDef) : Change κ Unit := fun s => do
  let (t, s) ← newTable d.limits s
  return ((), s.install e d.name (.table t))

def defineFunction (e : EnvironmentId) (d : FuncDef κ) : Change κ Unit := fun s =>
  let (f, s) := s.addFunction d.name (.binary d.type d.code e)
  .ok ((), s.install e d.name (.function f))

/-- A fault of a segment is a trap of the module. -/
def trapOf {α : Type} (identity : String) (cause : TypeFault → TrapCause)
    (result : Except EvalError α) : Except EvalError α :=
  result.mapError fun e => match e with
    | .type fault => .trap identity (cause fault)
    | other => other

/-- Copies the bytes of a segment. All of them must fit. -/
def applyData (e : EnvironmentId) (identity : String) (segment : DataSegment) : Change κ Unit :=
  fun s => do
    let m ← s.readEntityAs .memory Value.memory? e segment.memory
    trapOf identity (.data segment.memory) (writeMemory m segment.offset segment.bytes s)

/-- Indices of tables are below this. -/
def indexBound : Nat := Nat.pow 2 32

/-- Writes one function of a segment, which is the `i`-th of it, into `t`. -/
def applyElement (e : EnvironmentId) (identity : String) (segment : ElementSegment)
    (t : TableId) (i : Nat) (name : String) : Change κ Unit := fun s => do
  if indexBound ≤ segment.offset + i then
    throw (.trap identity (.elementOverflow segment.table))
  let f ← s.readEntityAs .function Value.function? e name
  trapOf identity (.elements segment.table) (writeTable t (segment.offset + i) (some f) s)

/-- Gives an export the entity of a name. -/
def publishEntity (e : EnvironmentId) (s : Store κ) (exported name : String) :
    Except EvalError (Store κ) := do
  let value ← s.readEntity e name
  let environment ← s.environment e
  match environment.exports.get? exported with
  | some slot => return s.modifySlot slot fun x => x.setLive value
  | none => return s

/-- Gives an export of a binary module the entity it names. -/
def publish (e : EnvironmentId) (s : Store κ) (decl : ExportDecl κ) :
    Except EvalError (Store κ) :=
  match decl.source with
  | .own name | .observed name => publishEntity e s decl.name name
  | .declaration _ | .indirect .. => .ok s

/-- Gives all exports their values, in one step: a module that comes to its exports has an entity
for each, so none of them is refused after others were given. -/
def publishAll (e : EnvironmentId) (decls : List (ExportDecl κ)) : Change κ Unit := fun s => do
  return ((), ← decls.foldlM (publish e) s)

end Store

namespace World

variable {κ σ : Type}

/-- Writes the functions of a segment, one after the other. -/
def applyElements (e : EnvironmentId) (identity : String) (segment : ElementSegment) :
    Run (World κ σ) Unit := do
  let t ← reading fun s => s.readEntityAs .table Value.table? e segment.table
  segment.functions.zipIdx.forM fun (name, i) =>
    change (Store.applyElement e identity segment t i name)

/-- Makes what a binary module defines and gives its exports their values. -/
def instantiate (calls : Calls κ σ) (e : EnvironmentId) (identity : String)
    (record : Record κ) (body : BinaryBody κ) : Run (World κ σ) Unit := do
  body.globals.forM fun d => change (Store.defineGlobal e d)
  body.memories.forM fun d => change (Store.defineMemory e d)
  body.tables.forM fun d => change (Store.defineTable e d)
  body.functions.forM fun d => change (Store.defineFunction e d)
  body.data.forM fun segment => change (Store.applyData e identity segment)
  body.elements.forM fun segment => applyElements e identity segment
  match body.start with
  | some name =>
    let _ ← (Program.invokeName e name []).run calls
  | none => pure ()
  change (Store.publishAll e record.exports)

end World
end MixedModules
