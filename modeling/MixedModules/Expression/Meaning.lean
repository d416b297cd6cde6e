import MixedModules.Coercion
import MixedModules.Execution.Calls
import MixedModules.Expression.Basic
import MixedModules.Number.Layout

/-! The meaning of expressions, as programs.

Beside the store, expressions share registers and a log. A log entry describes the
objects in it at the moment of logging. Where an operand has to be of one sort, a
result of another sort is a failure of the expression, not of the language. -/
namespace MixedModules

/-- Registers and the log, latest entry first. -/
structure Notes where
  registers : Scope Outcome
  log : List Shown

/-- A program over the store and the notes. -/
abbrev Act := Program Code Notes

/-- Where code runs: the module it belongs to, if any, and the arguments of the
running function. -/
structure Place where
  home : Option EnvironmentId
  arguments : List Outcome

namespace Act

/-- The failure of an expression that is used wrongly. -/
def misuse {α : Type} (problem : String) : Act α := throw (.thrown ("driver: " ++ problem))

/-- The module the code belongs to. -/
def home (place : Place) : Act EnvironmentId :=
  match place.home with
  | some e => return e
  | none => misuse "no environment"

def toValue : Outcome → Act Value
  | .value v => return v
  | .plain .null => return .undefined
  | .plain (.bool b) => return .bool b
  | .plain (.string s) => return .string s
  | .plain (.integer n) => return .number (.ofInt n)
  | .plain (.number x) => return .number x
  | _ => misuse "expected a value"

def toRaw : Outcome → Act Raw
  | .raw r => return r
  | .raws [r] => return r
  | _ => misuse "expected a raw number"

def toGlobal (o : Outcome) : Act GlobalId := do
  match (← toValue o).global? with
  | some g => return g
  | none => misuse "expected a global"

def toMemory (o : Outcome) : Act MemoryId := do
  match (← toValue o).memory? with
  | some m => return m
  | none => misuse "expected a memory"

def toTable (o : Outcome) : Act TableId := do
  match (← toValue o).table? with
  | some t => return t
  | none => misuse "expected a table"

def toFunction (o : Outcome) : Act FunctionId := do
  match (← toValue o).function? with
  | some f => return f
  | none => misuse "expected a function"

/-- Describes what an outcome refers to. -/
def describe : Outcome → Act Shown
  | .value v => return .value (← Program.operate (.describe v))
  | .raw r => return .raw r
  | .raws rs => return .raws rs
  | .plain p => return .plain p

/-- The text of a value. Objects show their type and what they hold. -/
def detail (v : Value) : Act String := do
  match ← Program.operate (.describe v) with
  | .global _ state => return s!"Global<{state.type.text}>({state.value.detail})"
  | .memory _ limits => return s!"Memory{limits.text}"
  | .table _ limits => return s!"Table{limits.text}"
  | .function _ name none => return s!"Function({name})"
  | .function _ name (some type) => return s!"Function({name} {type.text})"
  | .primitive value =>
    match value with
    | .null => return "null"
    | .bool b => return toString b
    | .number n => return n.plainText
    | .bigint n => return s!"{toString n.toInt}n"
    | .string s => return Text.quoted s
    | _ => return "undefined"

/-- The text of a failure, with its label. -/
def failureText (e : EvalError) : String := e.label ++ "|" ++ e.message

/-- The sum of two outcomes of one sort. Integers wrap. -/
def add : Outcome → Outcome → Act Outcome
  | .raw (.i32 a), .raw (.i32 b) => return .raw (.i32 (a + b))
  | .raw (.i64 a), .raw (.i64 b) => return .raw (.i64 (a + b))
  | .raw (.f64 a), .raw (.f64 b) => return .raw (.f64 (a + b))
  | .value (.number a), .value (.number b) => return .value (.number (a + b))
  | .value (.string a), .value (.string b) => return .value (.string (a ++ b))
  | _, _ => misuse "cannot add"

end Act

namespace Expression

open Program (operate)

/-- A check as data. -/
def verdict : Except Incompatibility Unit → Plain
  | .ok _ => .string "ok"
  | .error reason => .failure reason.label reason.message

def Query.program (place : Place) : Query → Act Outcome
  | argument index => return place.arguments.getD index (.value .undefined)
  | argumentCount => return .plain (.natural place.arguments.length)
  | register name => do
    let notes ← Program.ask .kept
    return (notes.registers.get? name).getD (.value .undefined)
  | readName name => do return .value (← operate (.readName (← Act.home place) name))
  | readImport name => do return .value (← operate (.readImport (← Act.home place) name))
  | readEntity name => do return .value (← operate (.readEntity (← Act.home place) name))
  | readEntityOf kind name => do
    return .value (← operate (.readEntityOf kind (← Act.home place) name))
  | newMemory limits => do return .value (.memory (← operate (.newMemory limits)))
  | newTable limits => do return .value (.table (← operate (.newTable limits)))
  | satisfies provided required => return .plain (.bool (provided.satisfies required))
  | describeLimits limits => return .plain (.list [.bool limits.isValid, .string limits.text])
  | toInt32 n => return .raw (.i32 n.toInt32)
  | checkLink importKind importType exportKind exportType =>
    return .plain (verdict (MixedModules.checkLink importKind importType exportKind exportType))

def OnValue.program (place : Place) (v : Value) : OnValue → Act Outcome
  | itself => return .value v
  | assign name => do
    operate (.assign (← Act.home place) name v)
    return .plain .null
  | typeName => return .plain (.string v.typeName)
  | detail => do return .plain (.string (← Act.detail v))
  | number? => return match v.number? with
    | some n => .value (.number n)
    | none => .plain .null
  | toNumber => do return .value (.number (← Program.ofFault v.toNumber))
  | toRaw type => do return .raw (← Program.ofFault (v.toRaw type))
  | observe kind type => do
    match ← operate (.observe kind type v) with
    | .ok observed => return .value observed
    | .error reason => return .plain (.failure reason.label reason.message)

def OnRaw.program (r : Raw) : OnRaw → Act Outcome
  | newGlobal type => do return .value (.global (← operate (.newGlobal type r)))
  | detail => return .plain (.string r.detail)
  | typeName => return .plain (.string r.type.text)
  | ifType type => return if r.type = type then .raw r else .plain .null
  | toValue => return .value (.ofRaw r)

def OnGlobal.program (g : GlobalId) : OnGlobal → Act Outcome
  | read => do return .raw (← operate (.readGlobal g)).value
  | readValue => do return .value (← Program.readGlobalValue g)
  | typeText => do return .plain (.string (← operate (.readGlobal g)).type.text)

def OnMemory.program (m : MemoryId) : OnMemory → Act Outcome
  | pages => do return .plain (.natural (← operate (.memoryLimits m)).min)
  | maximum => do
    return .plain (((← operate (.memoryLimits m)).max.map Plain.natural).getD .null)
  | limitsText => do return .plain (.string (← operate (.memoryLimits m)).text)
  | grow delta => do return .plain (.natural (← operate (.growMemory m delta)))
  | read offset length => do
    return .plain (.ofBytes (← operate (.readMemory m offset length)))
  | write offset bytes => do
    operate (.writeMemory m offset bytes)
    return .plain .null
  | load offset => do return .raw (.i32 (← operate (.loadMemory m offset)))
  | store offset n => do
    operate (.storeMemory m offset n)
    return .plain .null

def OnTable.program (t : TableId) : OnTable → Act Outcome
  | size => do return .plain (.natural (← operate (.tableLimits t)).min)
  | maximum => do
    return .plain (((← operate (.tableLimits t)).max.map Plain.natural).getD .null)
  | limitsText => do return .plain (.string (← operate (.tableLimits t)).text)
  | get index => do
    return match ← operate (.readTable t index) with
      | some f => .value (.function f)
      | none => .plain .null
  | clear index => do
    operate (.writeTable t index none)
    return .plain .null
  | growHoles delta => do return .plain (.natural (← operate (.growTable t delta none)))

def OnFunction.program (f : FunctionId) (op : OnFunction) : Act Outcome := do
  let (functionName, type) ← operate (.readFunction f)
  return .plain (match op with
    | name => .string functionName
    | signature => .text? (type.map FuncType.text)
    | isBinary => .bool type.isSome)

mutual

/-- The program of an expression. -/
def program (place : Place) : Expression → Act Outcome
  | plain p => return .plain p
  | value v => return .value v
  | raw r => return .raw r
  | query q => q.program place
  | bind name e => do
    let result ← e.program place
    Program.modify fun notes => { notes with registers := notes.registers.put name result }
    return result
  | sequence es => programs place (.plain .null) es
  | log e => do
    let result ← e.program place
    let shown ← Act.describe result
    Program.modify fun notes => { notes with log := shown :: notes.log }
    return result
  | throw message => MonadExcept.throw (EvalError.thrown message)
  | attempt e => tryCatch (e.program place) fun failure =>
    return .value (.string (Act.failureText failure))
  | list es => do return .raws (← rawOperands place es)
  | add a b => do Act.add (← a.program place) (← b.program place)
  | same a b => do
    let left ← Act.toValue (← a.program place)
    let right ← Act.toValue (← b.program place)
    return .plain (.bool (left.same right))
  | onValue op v => do op.program place (← Act.toValue (← v.program place))
  | onRaw op r => do op.program (← Act.toRaw (← r.program place))
  | onGlobal op g => do op.program (← Act.toGlobal (← g.program place))
  | writeGlobal g r => do
    let target ← Act.toGlobal (← g.program place)
    let new ← Act.toRaw (← r.program place)
    operate (.writeGlobal target new)
    return .raw (← operate (.readGlobal target)).value
  | writeGlobalValue g v => do
    let target ← Act.toGlobal (← g.program place)
    let new ← Act.toValue (← v.program place)
    Program.writeGlobalValue target new
    return .raw (← operate (.readGlobal target)).value
  | onMemory op m => do op.program (← Act.toMemory (← m.program place))
  | onTable op t => do op.program (← Act.toTable (← t.program place))
  | writeTable t index f => do
    let target ← Act.toTable (← t.program place)
    let element ← Act.toFunction (← f.program place)
    operate (.writeTable target index (some element))
    return .plain .null
  | growTable t delta f => do
    let target ← Act.toTable (← t.program place)
    let element ← Act.toFunction (← f.program place)
    return .plain (.natural (← operate (.growTable target delta (some element))))
  | onFunction op f => do op.program (← Act.toFunction (← f.program place))
  | call f arguments => do
    let target ← Act.toFunction (← f.program place)
    return .value (← Program.call target (← valueOperands place arguments))
  | invoke f arguments => do
    let target ← Act.toFunction (← f.program place)
    return .raws (← Program.invoke target (← rawOperands place arguments))
  | callName name arguments => do
    let values ← valueOperands place arguments
    return .value (← Program.callName (← Act.home place) name values)
  | invokeName name arguments => do
    let raws ← rawOperands place arguments
    return .raws (← Program.invokeName (← Act.home place) name raws)
  | host name code => do return .value (.function (← operate (.newHost name code)))
  | closure name code => do
    return .value (.function (← operate (.newClosure (← Act.home place) name code)))

/-- Runs expressions in order and gives what the last one gives, or `last` if there
is none. -/
def programs (place : Place) (last : Outcome) : List Expression → Act Outcome
  | [] => return last
  | e :: rest => do
    let result ← e.program place
    programs place result rest

/-- Operands used as values. -/
def valueOperands (place : Place) : List Expression → Act (List Value)
  | [] => return []
  | e :: rest => do
    let v ← Act.toValue (← e.program place)
    return v :: (← valueOperands place rest)

/-- Operands used as raw numbers. -/
def rawOperands (place : Place) : List Expression → Act (List Raw)
  | [] => return []
  | e :: rest => do
    let r ← Act.toRaw (← e.program place)
    return r :: (← rawOperands place rest)

end

end Expression

namespace Code

/-- Runs code in order. -/
def program (place : Place) (code : Code) : Act Outcome :=
  Expression.programs place (.plain .null) code

/-- The results of a binary function: one or several raw numbers, or nothing. -/
def results : Outcome → Act (List Raw)
  | .raw r => return [r]
  | .raws rs => return rs
  | .plain _ | .value .undefined => return []
  | .value _ => Act.misuse "expected raw numbers"

/-- Code as the embedder's code of modules and functions. -/
def embedder : Embedder Code Notes where
  body code home := do
    let _ ← program ⟨some home, []⟩ code
  script code home arguments := do
    Act.toValue (← program ⟨home, arguments.map .value⟩ code)
  binary code home arguments := do
    results (← program ⟨some home, arguments.map .raw⟩ code)

end Code
end MixedModules
