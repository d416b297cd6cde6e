import MixedModules.Expression.Meaning

/-! Running code from outside and taking down what it shows.

What code shows is its log, in order, and then its result. Both describe objects as
they were at that moment, so a later change does not alter what was taken down. -/
namespace MixedModules

/-- The world of expressions. -/
abbrev Scene := World Code Notes

/-- What a step gave, after what it logged. -/
structure Reply (α : Type) where
  log : List Shown
  result : α

namespace Scene

/-- Nothing made yet and nothing noted. -/
def empty : Scene := .start .empty ⟨.empty, []⟩

/-- How deep calls may nest. -/
def callDepth : Nat := 10000

/-- The calls of code. -/
def calls : Calls Code Notes := Calls.ofDepth Code.embedder callDepth

/-- Runs a program and describes its outcome. There is none if calls nest too deep. -/
def perform (act : Act Outcome) (scene : Scene) : Option (Except EvalError Shown × Scene) :=
  match (do Act.describe (← act) : Act Shown).run calls scene with
  | (some result, scene) => some (result, scene)
  | (none, _) => none

/-- Takes the log, latest entry last, and leaves it empty. -/
def takeLog (scene : Scene) : List Shown × Scene :=
  (scene.memo.log.reverse, { scene with memo := { scene.memo with log := [] } })

/-- Evaluates an expression outside every module. -/
def evaluate (e : Expression) (scene : Scene) :
    Option (Reply (Except EvalError Shown) × Scene) :=
  (scene.perform (e.program ⟨none, []⟩)).map fun (result, scene) =>
    let (log, scene) := scene.takeLog
    (⟨log, result⟩, scene)

/-- Evaluates expressions one after the other in one scene. -/
def evaluateAll : List Expression → Scene → Option (List (Reply (Except EvalError Shown)))
  | [], _ => some []
  | e :: rest, scene => do
    let (reply, scene) ← scene.evaluate e
    let replies ← evaluateAll rest scene
    return reply :: replies

end Scene
end MixedModules
