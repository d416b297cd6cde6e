import MixedModules.Number.Double
import MixedModules.Scope

/-! Documents as trees of tables.

A table is defined once, by a header, by dotted keys or as an inline value. How it
came to be decides who may still add to it: a header may open a table that so far is
only implied by longer headers, dotted keys may go on with what dotted keys began,
and an inline table is closed. -/
namespace MixedModules.Toml

/-- How a table came to be: written inline, named by a header, implied by a longer
header, or made by a dotted key. -/
inductive Standing where
  | inline
  | header
  | implied
  | dotted
deriving DecidableEq, Repr

/-- A table with entries of type `α`. -/
structure Table (α : Type) where
  standing : Standing
  entries : Scope α
deriving Repr

/-- A value, a table, or a row of tables under one name. -/
inductive Node where
  | text (s : String)
  | integer (n : Int)
  | float (x : Number.Double)
  | boolean (b : Bool)
  | moment
  | array (items : List Node)
  | table (t : Table Node)
  | rows (ts : List (Table Node))
deriving Repr, Inhabited

namespace Table

/-- A table without entries. -/
def empty (standing : Standing) : Table Node := ⟨standing, .empty⟩

def put (t : Table Node) (name : String) (node : Node) : Table Node :=
  { t with entries := t.entries.put name node }

/-- Whether a path may lead through a table. A dotted path may not lead through what
a header has named, and no path leads into an inline table. -/
def isOpen (t : Table Node) (byDots : Bool) : Bool :=
  match t.standing with
  | .inline => false
  | .header => !byDots
  | .implied | .dotted => true

/-- Edits the table at the end of a path. Missing tables on the way are made, and a
path leads into the last of several rows. -/
def edit (byDots : Bool) (change : Table Node → Option (Table Node)) :
    List String → Table Node → Option (Table Node)
  | [], t => change t
  | name :: rest, t =>
    match t.entries.get? name with
    | none => do
      let made ← edit byDots change rest (.empty (if byDots then .dotted else .implied))
      return t.put name (.table made)
    | some (.table inner) =>
      if inner.isOpen byDots then do
        let changed ← edit byDots change rest inner
        return t.put name (.table changed)
      else none
    | some (.rows rows) => do
      let changed ← edit byDots change rest (← rows.getLast?)
      return t.put name (.rows (rows.dropLast ++ [changed]))
    | some _ => none

/-- Adds a value under a key of one or several parts. A key of several parts ends in
a table made by such keys. -/
def define (path : List String) (name : String) (value : Node) (t : Table Node) :
    Option (Table Node) :=
  t.edit true (fun target =>
    if (target.standing == .dotted) == path.isEmpty then none
    else if target.entries.contains name then none
    else some (target.put name value)) path

/-- Opens the table that a header names. -/
def openTable (path : List String) (name : String) (t : Table Node) : Option (Table Node) :=
  t.edit false (fun parent =>
    match parent.entries.get? name with
    | none => some (parent.put name (.table (.empty .header)))
    | some (.table ⟨.implied, entries⟩) => some (parent.put name (.table ⟨.header, entries⟩))
    | some _ => none) path

/-- Adds a row to the tables under a name. -/
def openRow (path : List String) (name : String) (t : Table Node) : Option (Table Node) :=
  t.edit false (fun parent =>
    match parent.entries.get? name with
    | none => some (parent.put name (.rows [.empty .header]))
    | some (.rows rows) => some (parent.put name (.rows (rows ++ [.empty .header])))
    | some _ => none) path

end Table
end MixedModules.Toml
