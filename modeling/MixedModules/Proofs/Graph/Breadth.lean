import Mathlib.Data.List.Induction
import Mathlib.Logic.Relation

/-! Search in breadth, as a relation that needs no bound.

Each round asks its members in order, and what is asked for and was not known makes up
the next round, in the order of asking. A search that ends has found everything that can
be reached, each thing once. -/
namespace MixedModules

/-! ## First occurrences -/

section FirstOccurrences

variable {α β : Type} [DecidableEq α] [DecidableEq β]

/-- One more member counts only if it is new. -/
theorem eraseDups_concat (xs : List α) (x : α) :
    (xs ++ [x]).eraseDups = if x ∈ xs then xs.eraseDups else xs.eraseDups ++ [x] := by
  rw [List.eraseDups_append]
  by_cases member : x ∈ xs <;> simp [List.removeAll, member, List.eraseDups_cons]

theorem nodup_eraseDups (xs : List α) : xs.eraseDups.Nodup := by
  induction xs using List.reverseRecOn with
  | nil => simp
  | append_singleton rest x ih =>
    rw [eraseDups_concat]
    split
    · exact ih
    · next new =>
      refine List.nodup_append.mpr ⟨ih, by simp, ?_⟩
      rintro y held last member rfl
      rw [List.mem_singleton.mp member, List.mem_eraseDups] at held
      exact new held

theorem eraseDups_of_nodup {xs : List α} (distinct : xs.Nodup) : xs.eraseDups = xs := by
  induction xs using List.reverseRecOn with
  | nil => simp
  | append_singleton rest x ih =>
    obtain ⟨distinct, _, apart⟩ := List.nodup_append.mp distinct
    have new : x ∉ rest := fun member => apart x member x (List.mem_singleton_self x) rfl
    rw [eraseDups_concat, if_neg new, ih distinct]

theorem map_eraseDups {f : α → β} {xs : List α}
    (apart : ∀ x ∈ xs, ∀ y ∈ xs, f x = f y → x = y) :
    xs.eraseDups.map f = (xs.map f).eraseDups := by
  induction xs using List.reverseRecOn with
  | nil => simp
  | append_singleton rest x ih =>
    have fewer := ih fun y member z member' =>
      apart y (List.mem_append_left _ member) z (List.mem_append_left _ member')
    have same : f x ∈ rest.map f ↔ x ∈ rest := by
      refine ⟨fun member => ?_, List.mem_map_of_mem⟩
      obtain ⟨y, held, alike⟩ := List.mem_map.mp member
      have equal := apart y (List.mem_append_left _ held) x (by simp) alike
      rwa [← equal]
    rw [List.map_append, List.map_singleton, eraseDups_concat, eraseDups_concat, ← fewer]
    by_cases member : x ∈ rest <;> simp [same, member]

end FirstOccurrences

/-! ## Rounds -/

/-- A search that knows some things and has a round to ask comes upon all things in an
order. -/
inductive BreadthFirst {α : Type} [DecidableEq α] (asks : α → List α) :
    List α → List α → List α → Prop where
  | done {known : List α} : BreadthFirst asks known [] known
  | round {known round found order : List α} (nonempty : round ≠ [])
      (finds : (known ++ round.flatMap asks).eraseDups = known ++ found)
      (rest : BreadthFirst asks (known ++ found) found order) : BreadthFirst asks known round order

namespace BreadthFirst

variable {α β : Type} [DecidableEq α] [DecidableEq β] {asks : α → List α}
  {known round order : List α} {x : α}

theorem subset (search : BreadthFirst asks known round order) : ∀ x ∈ known, x ∈ order := by
  induction search with
  | done => exact fun _ member => member
  | round _ _ _ ih => exact fun x member => ih x (List.mem_append_left _ member)

theorem nodup (search : BreadthFirst asks known round order) (distinct : known.Nodup) :
    order.Nodup := by
  induction search with
  | done => exact distinct
  | round _ finds _ ih => exact ih (finds ▸ nodup_eraseDups _)

/-- There is only one such order. -/
theorem unique {order' : List α} (search : BreadthFirst asks known round order)
    (search' : BreadthFirst asks known round order') : order = order' := by
  induction search with
  | done =>
    cases search' with
    | done => rfl
    | round nonempty _ _ => exact absurd rfl nonempty
  | round nonempty finds _ ih =>
    cases search' with
    | done => exact absurd rfl nonempty
    | round _ finds' rest' =>
      cases List.append_cancel_left (finds.symm.trans finds')
      exact ih rest'

/-- What a round finds is new, and one of its members asks for it. -/
private theorem mem_found {found : List α}
    (finds : (known ++ round.flatMap asks).eraseDups = known ++ found) (held : x ∈ found) :
    ∃ y ∈ round, x ∈ asks y := by
  have apart := (List.nodup_append.mp (finds ▸ nodup_eraseDups (known ++ round.flatMap asks))).2.2
  have inside : x ∈ (known ++ round.flatMap asks).eraseDups :=
    finds ▸ List.mem_append_right known held
  rw [List.mem_eraseDups, List.mem_append, List.mem_flatMap] at inside
  exact inside.resolve_left fun early => apart x early x held rfl

/-- What a search comes upon is reached from what it started with. -/
theorem reached (search : BreadthFirst asks known round order) (member : x ∈ order) :
    x ∈ known ∨ ∃ y ∈ round, Relation.ReflTransGen (fun a b => b ∈ asks a) y x := by
  induction search with
  | done => exact .inl member
  | round _ finds _ ih =>
    rcases ih member with held | ⟨y, held, reaches⟩
    · rcases List.mem_append.mp held with early | late
      · exact .inl early
      · obtain ⟨z, here, asked⟩ := mem_found finds late
        exact .inr ⟨z, here, .single asked⟩
    · obtain ⟨z, here, asked⟩ := mem_found finds held
      exact .inr ⟨z, here, .head asked reaches⟩

/-- What a search comes upon asks for nothing else. -/
theorem closed (search : BreadthFirst asks known round order)
    (asked : ∀ x ∈ known, x ∈ round ∨ ∀ y ∈ asks x, y ∈ known) (member : x ∈ order) :
    ∀ y ∈ asks x, y ∈ order := by
  induction search with
  | done => exact (asked x member).resolve_left List.not_mem_nil
  | @round known round found _ _ finds _ ih =>
    refine ih (fun z held => ?_) member
    rcases List.mem_append.mp held with early | late
    · refine .inr fun y wanted => ?_
      have inside : y ∈ known ++ round.flatMap asks := by
        rcases asked z early with now | before
        · exact List.mem_append_right _ (List.mem_flatMap.mpr ⟨z, now, wanted⟩)
        · exact List.mem_append_left _ (before y wanted)
      rwa [← List.mem_eraseDups, finds] at inside
    · exact .inl late

/-- A search from one thing finds exactly what can be reached from it. -/
theorem mem_iff {start : α} (search : BreadthFirst asks [start] [start] order) :
    x ∈ order ↔ Relation.ReflTransGen (fun a b => b ∈ asks a) start x := by
  constructor
  · intro member
    rcases search.reached member with same | ⟨y, same, reaches⟩
    · rw [List.mem_singleton.mp same]
    · rwa [← List.mem_singleton.mp same]
  · intro reaches
    induction reaches with
    | refl => exact search.subset start (List.mem_singleton_self start)
    | tail _ asked ih => exact search.closed (fun _ member => .inl member) ih _ asked

/-- A search goes the same way under other names, if no two things share one. -/
theorem map {asks' : β → List β} {f : α → β} (search : BreadthFirst asks known round order)
    (inside : ∀ x ∈ round, x ∈ order)
    (apart : ∀ x ∈ order, ∀ y ∈ order, f x = f y → x = y)
    (same : ∀ x ∈ order, (asks x).map f = asks' (f x)) :
    BreadthFirst asks' (known.map f) (round.map f) (order.map f) := by
  induction search with
  | done => exact .done
  | @round known round found order nonempty finds rest ih =>
    have later : ∀ x ∈ found, x ∈ order := fun x held =>
      rest.subset x (List.mem_append_right _ held)
    have whole : ∀ x ∈ known ++ round.flatMap asks, x ∈ order := by
      intro x member
      rw [← List.mem_eraseDups, finds] at member
      exact rest.subset x member
    have asked : (round.map f).flatMap asks' = (round.flatMap asks).map f := by
      rw [List.flatMap_map, List.map_flatMap]
      exact congrArg List.flatten
        (List.map_congr_left fun x member => (same x (inside x member)).symm)
    have next := ih later apart same
    rw [List.map_append] at next
    refine .round (by simpa using nonempty) ?_ next
    rw [asked, ← List.map_append, ← List.map_append, ← finds, map_eraseDups]
    exact fun x member y member' => apart x (whole x member) y (whole y member')

end BreadthFirst
end MixedModules
