import MixedModules.Registry.Basic
import MixedModules.Store.Basic

/-! What an export name of a module stands for.

An explicit export is a slot of the module itself or an export of another one. Any
other name but the default one is looked for in the modules whose exports are given
on, and must not come from two different slots. A question that was asked before
finds nothing new, which ends every circle; the questions asked are kept through the
whole search. -/
namespace MixedModules

/-- What a name stands for: the slot and the module that owns it, nothing, or more
than one slot. -/
inductive Resolution where
  | found (owner : ModuleId) (slot : SlotId)
  | notFound
  | ambiguous
deriving DecidableEq, Repr

/-- Names that were asked for, with the modules they were asked of. -/
abbrev Asked := List (ModuleId × String)

/-- The name that is never given on by a star. -/
def defaultName : String := "default"

/-- Asks the modules of a star in order, after the answer `before`. All slots found
must be the same. -/
def Resolution.merge (ask : ModuleId → Asked → Resolution × Asked) :
    Option (ModuleId × SlotId) → List ModuleId → Asked → Resolution × Asked
  | none, [], asked => (.notFound, asked)
  | some (owner, slot), [], asked => (.found owner slot, asked)
  | before, target :: rest, asked =>
    match ask target asked with
    | (.ambiguous, asked) => (.ambiguous, asked)
    | (.notFound, asked) => merge ask before rest asked
    | (.found owner slot, asked) =>
      match before with
      | none => merge ask (some (owner, slot)) rest asked
      | some (_, other) =>
        if other = slot then merge ask before rest asked else (.ambiguous, asked)

namespace Registry

variable {κ : Type}

/-- The module's own slot for an export. -/
def exportSlot? (r : Registry κ) (s : Store κ) (m : ModuleId) (name : String) :
    Option SlotId := do
  let e ← (← r.get? m).environment
  (← s.environment? e).exports.get? name

/-- More than the questions there are: one for each module and each name that an
export can pass on, beside the first one. -/
def questions (r : Registry κ) : Nat :=
  let passedOn := r.instances.foldl (fun n i => n + i.record.exports.length) 1
  r.size * passedOn + 1

/-- Searches for an export, to a given depth. -/
def search (r : Registry κ) (s : Store κ) :
    Nat → ModuleId → String → Asked → Resolution × Asked
  | 0, _, _, asked => (.notFound, asked)
  | depth + 1, m, name, asked =>
    if asked.contains (m, name) then (.notFound, asked)
    else
      let asked := (m, name) :: asked
      match r.get? m with
      | none => (.notFound, asked)
      | some i =>
        match i.record.exports.find? fun decl => decl.name = name with
        | some decl =>
          match decl.source with
          | .indirect specifier inner =>
            match i.dependency? specifier with
            | some target => r.search s depth target inner asked
            | none => (.notFound, asked)
          | _ =>
            match r.exportSlot? s m name with
            | some slot => (.found m slot, asked)
            | none => (.notFound, asked)
        | none =>
          if name = defaultName then (.notFound, asked)
          else Resolution.merge (fun target asked => r.search s depth target name asked)
            none i.starTargets asked

/-- What an export name of a module stands for. -/
def resolve (r : Registry κ) (s : Store κ) (m : ModuleId) (name : String) : Resolution :=
  (r.search s r.questions m name []).1

/-- Adds names that are not there yet. The default name is left out. -/
def addStarNames (names more : List String) : List String :=
  more.foldl (fun names name =>
    if name = defaultName ∨ name ∈ names then names else names ++ [name]) names

/-- The names a module exports or gives on, to a given depth, and the modules seen. -/
def collectNames (r : Registry κ) :
    Nat → ModuleId → List ModuleId → List String × List ModuleId
  | 0, _, seen => ([], seen)
  | depth + 1, m, seen =>
    if seen.contains m then ([], seen)
    else
      let seen := m :: seen
      match r.get? m with
      | none => ([], seen)
      | some i =>
        i.starTargets.foldl (fun (names, seen) target =>
          let (more, seen) := r.collectNames depth target seen
          (addStarNames names more, seen))
          (i.record.exports.map (·.name), seen)

def exportedNames (r : Registry κ) (m : ModuleId) : List String :=
  (r.collectNames (r.size + 1) m []).1

/-- The exports of a module that stand for one slot, in rising order of names. -/
def namespaceSlots (r : Registry κ) (s : Store κ) (m : ModuleId) : List (String × SlotId) :=
  let slots := (r.exportedNames m).filterMap fun name =>
    match r.resolve s m name with
    | .found _ slot => some (name, slot)
    | _ => none
  (Scope.ofPairs slots).sorted

end Registry
end MixedModules
