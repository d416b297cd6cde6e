/-! Chronicles: what has happened, for statements only.

A program can write into a chronicle and never read it, so no answer depends on one,
and nothing of it is left when the program runs. Statements about what happens on the
way read it. -/
namespace MixedModules

/-- Events, of which only statements can speak. -/
structure Chronicle (α : Type) where
  tells : List α → Prop
  unique : ∃ events, tells = (events = ·)

namespace Chronicle

variable {α : Type}

def empty : Chronicle α := ⟨([] = ·), [], rfl⟩

instance : Inhabited (Chronicle α) := ⟨empty⟩

/-- Adds an event after those that were told before. -/
def add (c : Chronicle α) (event : α) : Chronicle α where
  tells events := ∃ before, c.tells before ∧ event :: before = events
  unique := by
    obtain ⟨before, same⟩ := c.unique
    exact ⟨event :: before, by simp [same]⟩

/-- The events, the latest first. -/
noncomputable def events (c : Chronicle α) : List α := c.unique.choose

private theorem tells_iff (c : Chronicle α) (events : List α) :
    c.tells events ↔ c.events = events :=
  iff_of_eq (congrFun c.unique.choose_spec events)

@[simp] theorem events_empty : (empty : Chronicle α).events = [] :=
  ((tells_iff empty []).mp rfl)

@[simp] theorem events_add (c : Chronicle α) (event : α) :
    (c.add event).events = event :: c.events :=
  (tells_iff (c.add event) _).mp ⟨c.events, (tells_iff c _).mpr rfl, rfl⟩

end Chronicle
end MixedModules
