import MixedModules.Record.Basic
import MixedModules.Store.Operation

/-! A small language of expressions for module bodies and functions.

An expression gives one of four sorts of result: a value, a raw number, a list of
raw numbers, or plain data. Operators are grouped by their operand, so that an
expression says how its operands are read and an operator what is done with them.
Code is a list of expressions, run in order. -/
namespace MixedModules

/-- Data that belongs to no module. A number written with a point or a power of ten
is a double even where its value is whole, and so is a negative zero. -/
inductive Plain where
  | null
  | bool (b : Bool)
  | integer (n : Int)
  | number (x : Number.Double)
  | string (s : String)
  | list (items : List Plain)
  | record (fields : List (String × Plain))
deriving Repr, Inhabited

namespace Plain

def natural (n : Nat) : Plain := integer n

def text? : Option String → Plain
  | some s => string s
  | none => null

/-- A failure as data. -/
def failure (label message : String) : Plain :=
  record [("error", string label), ("message", string message)]

/-- Two hexadecimal digits for every byte. -/
def ofBytes (bytes : List UInt8) : Plain :=
  let digit (n : Nat) : Char := (Nat.toDigits 16 n).headD '0'
  string (String.ofList (bytes.flatMap fun b => [digit (b.toNat / 16), digit (b.toNat % 16)]))

end Plain

/-- What an expression gives. -/
inductive Outcome where
  | value (v : Value)
  | raw (r : Raw)
  | raws (rs : List Raw)
  | plain (p : Plain)
deriving Repr, Inhabited

/-- An outcome with its objects described as they were when it was shown. -/
inductive Shown where
  | value (d : Description)
  | raw (r : Raw)
  | raws (rs : List Raw)
  | plain (p : Plain)
deriving Repr

namespace Expression

/-- Operators without operands. -/
inductive Query where
  | argument (index : Nat)
  | argumentCount
  | register (name : String)
  | readName (name : String)
  | readImport (name : String)
  | readEntity (name : String)
  | readEntityOf (kind : BindingKind) (name : String)
  | newMemory (limits : Limits)
  | newTable (limits : Limits)
  | satisfies (provided required : Limits)
  | describeLimits (limits : Limits)
  | toInt32 (n : Number.Double)
  | checkLink (importKind : BindingKind) (importType : TypeSig) (exportKind : BindingKind)
      (exportType : TypeSig)
deriving Repr

/-- Operators on a value. -/
inductive OnValue where
  | itself
  | assign (name : String)
  | typeName
  | detail
  | number?
  | toNumber
  | toRaw (type : NumType)
  | observe (kind : BindingKind) (type : TypeSig)
deriving Repr

/-- Operators on a raw number. -/
inductive OnRaw where
  | newGlobal (type : GlobalType)
  | detail
  | typeName
  | ifType (type : NumType)
  | toValue
deriving Repr

/-- Operators on a global. -/
inductive OnGlobal where
  | read
  | readValue
  | typeText
deriving Repr

/-- Operators on a memory. -/
inductive OnMemory where
  | pages
  | maximum
  | limitsText
  | grow (delta : Nat)
  | read (offset length : Nat)
  | write (offset : Nat) (bytes : List UInt8)
  | load (offset : Nat)
  | store (offset : Nat) (n : Int32)
deriving Repr

/-- Operators on a table. -/
inductive OnTable where
  | size
  | maximum
  | limitsText
  | get (index : Nat)
  | clear (index : Nat)
  | growHoles (delta : Nat)
deriving Repr

/-- Operators on a function. -/
inductive OnFunction where
  | name
  | signature
  | isBinary
deriving Repr

end Expression

/-- An expression. Operands are evaluated from left to right. -/
inductive Expression where
  | plain (p : Plain)
  | value (v : Value)
  | raw (r : Raw)
  | query (q : Expression.Query)
  | bind (name : String) (e : Expression)
  | sequence (es : List Expression)
  | log (e : Expression)
  | throw (message : String)
  | attempt (e : Expression)
  | list (es : List Expression)
  | add (a b : Expression)
  | same (a b : Expression)
  | onValue (op : Expression.OnValue) (v : Expression)
  | onRaw (op : Expression.OnRaw) (r : Expression)
  | onGlobal (op : Expression.OnGlobal) (g : Expression)
  | writeGlobal (g r : Expression)
  | writeGlobalValue (g v : Expression)
  | onMemory (op : Expression.OnMemory) (m : Expression)
  | onTable (op : Expression.OnTable) (t : Expression)
  | writeTable (t : Expression) (index : Nat) (f : Expression)
  | growTable (t : Expression) (delta : Nat) (f : Expression)
  | onFunction (op : Expression.OnFunction) (f : Expression)
  | call (f : Expression) (arguments : List Expression)
  | invoke (f : Expression) (arguments : List Expression)
  | callName (name : String) (arguments : List Expression)
  | invokeName (name : String) (arguments : List Expression)
  | host (name : String) (code : List Expression)
  | closure (name : String) (code : List Expression)
deriving Repr, Inhabited

/-- Expressions run one after the other. -/
abbrev Code := List Expression

end MixedModules
