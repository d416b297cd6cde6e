import Mathlib.Data.List.Induction
import Mathlib.Logic.Relation
import MixedModules.Specifier.Path

/-! Places that segments lead to.

A place is told by its names from the top. Segments lead from one place to another: an empty
one and a single dot stay there, two dots take the last name away, and any other is a name
that is added. Two rows of segments are spellings of the same path if one turns into the other
by leaving out, or putting in, what stays put and what is taken back at once. Where nobody
climbs above the top, that is so exactly when both lead to the same place. -/
namespace MixedModules.Specifier.Path

/-- Where a segment leads from a place. Above the top there is nothing, so two dots at the top
stay there. -/
def follow (place : List (List Char)) (segment : List Char) : List (List Char) :=
  if segment = [] ∨ segment = ['.'] then place
  else if segment = ['.', '.'] then place.dropLast
  else place ++ [segment]

/-- Where segments lead from a place, one after the other. -/
def settle (place : List (List Char)) (ss : List (List Char)) : List (List Char) :=
  ss.foldl follow place

/-- On the way there are two dots where no more than `spare` names are left. -/
def Climbs (spare : Nat) (place : List (List Char)) (ss : List (List Char)) : Prop :=
  ∃ before after, ss = before ++ ['.', '.'] :: after ∧ (settle place before).length ≤ spare

/-- A segment that names something, and is one segment. -/
structure Proper (name : List Char) : Prop where
  filled : name ≠ []
  dot : name ≠ ['.']
  dots : name ≠ ['.', '.']
  whole : '/' ∉ name

/-- Segments without one that stays put, or without a name that is taken back at once. -/
inductive Shortens : List (List Char) → List (List Char) → Prop
  | stay (before : List (List Char)) {segment : List Char} (after : List (List Char))
      (puts : segment = [] ∨ segment = ['.']) :
      Shortens (before ++ segment :: after) (before ++ after)
  | back (before : List (List Char)) {name : List Char} (after : List (List Char))
      (proper : Proper name) : Shortens (before ++ name :: ['.', '.'] :: after) (before ++ after)

/-- Spellings of the same path. -/
def Respelled : List (List Char) → List (List Char) → Prop := Relation.EqvGen Shortens

variable {place ss ss' : List (List Char)} {segment name : List Char} {spare : Nat}

/-! ## Segments of a text -/

theorem staysPut_iff : staysPut segment = true ↔ segment = [] ∨ segment = ['.'] := by
  simp [staysPut]

theorem segments_ne_nil (path : List Char) : segments path ≠ [] := by
  cases path with
  | nil => simp [segments]
  | cons c rest =>
    rw [segments]
    split
    · simp
    · split <;> simp

/-- No segment has a slash in it. -/
theorem not_mem_of_mem_segments {path : List Char} (member : segment ∈ segments path) :
    '/' ∉ segment := by
  induction path generalizing segment with
  | nil => simp_all [segments]
  | cons c rest ih =>
    rw [segments] at member
    split at member
    · rcases List.mem_cons.mp member with rfl | later
      · simp
      · exact ih later
    · next apart =>
      split at member
      · next none => exact absurd none (segments_ne_nil rest)
      · next head tail parts =>
        rcases List.mem_cons.mp member with rfl | later
        · have inside : '/' ∉ head := ih (by simp [parts])
          simp [inside, Ne.symm apart]
        · exact ih (by simp [parts, later])

/-- What stands before a slash and what stands after it have their segments apart. -/
theorem segments_append (front back : List Char) :
    segments (front ++ '/' :: back) = segments front ++ segments back := by
  induction front with
  | nil => simp [segments]
  | cons c rest ih =>
    rw [List.cons_append, segments, segments, ih]
    split
    · simp
    · split
      · next none => simp [segments_ne_nil] at none
      · next head tail parts =>
        cases here : segments rest with
        | nil => exact absurd here (segments_ne_nil rest)
        | cons first others =>
          rw [here, List.cons_append, List.cons.injEq] at parts
          obtain ⟨rfl, rfl⟩ := parts
          rfl

theorem segments_of_not_mem (whole : '/' ∉ name) : segments name = [name] := by
  induction name with
  | nil => rfl
  | cons c rest ih =>
    simp only [List.mem_cons, not_or] at whole
    rw [segments, if_neg (Ne.symm whole.1), ih whole.2]

theorem ofSegments_cons (first second : List Char) (rest : List (List Char)) :
    ofSegments (first :: second :: rest) = first ++ '/' :: ofSegments (second :: rest) := rfl

theorem ofSegments_eq_intercalate (ss : List (List Char)) :
    ofSegments ss = ['/'].intercalate ss := by
  match ss with
  | [] => rfl
  | [only] => simp [ofSegments]
  | first :: second :: rest =>
    rw [ofSegments_cons, ofSegments_eq_intercalate (second :: rest)]
    simp [List.intercalate]

/-- Segments that are written out are read again. -/
theorem segments_ofSegments (some : ss ≠ []) (whole : ∀ segment ∈ ss, '/' ∉ segment) :
    segments (ofSegments ss) = ss := by
  induction ss with
  | nil => exact absurd rfl some
  | cons first rest ih =>
    have here := segments_of_not_mem (whole first List.mem_cons_self)
    cases rest with
    | nil => exact here
    | cons second later =>
      rw [ofSegments_cons, segments_append, here, ih (List.cons_ne_nil _ _) fun segment member =>
        whole segment (List.mem_cons_of_mem first member)]
      rfl

/-! ## Following segments -/

@[simp] theorem settle_nil : settle place [] = place := rfl

@[simp] theorem settle_cons : settle place (segment :: ss) = settle (follow place segment) ss := rfl

@[simp] theorem settle_append : settle place (ss ++ ss') = settle (settle place ss) ss' :=
  List.foldl_append

theorem follow_of_staysPut (puts : segment = [] ∨ segment = ['.']) : follow place segment = place :=
  if_pos puts

@[simp] theorem follow_up : follow place ['.', '.'] = place.dropLast := rfl

theorem follow_name (proper : Proper segment) : follow place segment = place ++ [segment] := by
  rw [follow, if_neg (not_or.mpr ⟨proper.filled, proper.dot⟩), if_neg proper.dots]

/-- A segment that is one stays put, goes up or is a name. -/
theorem segment_cases (whole : '/' ∉ segment) :
    (segment = [] ∨ segment = ['.']) ∨ segment = ['.', '.'] ∨ Proper segment := by
  by_cases puts : segment = [] ∨ segment = ['.']
  · exact .inl puts
  by_cases up : segment = ['.', '.']
  · exact .inr (.inl up)
  · exact .inr (.inr ⟨fun h => puts (.inl h), fun h => puts (.inr h), up, whole⟩)

/-- Only names are left in a place. -/
theorem proper_of_mem_settle (places : ∀ name ∈ place, Proper name)
    (whole : ∀ segment ∈ ss, '/' ∉ segment) : ∀ name ∈ settle place ss, Proper name := by
  induction ss generalizing place with
  | nil => exact places
  | cons segment rest ih =>
    refine ih (fun name member => ?_) fun later member => whole later (by simp [member])
    rcases segment_cases (whole segment (by simp)) with puts | rfl | proper
    · rw [follow_of_staysPut puts] at member
      exact places name member
    · exact places name (List.dropLast_subset place member)
    · rw [follow_name proper, List.mem_append, List.mem_singleton] at member
      rcases member with before | rfl
      · exact places name before
      · exact proper

/-- Names are added one after the other. -/
theorem settle_of_proper (names : ∀ name ∈ ss, Proper name) : settle place ss = place ++ ss := by
  induction ss generalizing place with
  | nil => simp
  | cons name rest ih =>
    rw [settle_cons, follow_name (names name (by simp)), ih fun other member => names other (by simp_all)]
    simp

theorem not_climbs_of_proper (names : ∀ name ∈ ss, Proper name) : ¬ Climbs spare place ss := by
  rintro ⟨before, after, rfl, _⟩
  exact (names ['.', '.'] (by simp)).dots rfl

/-- What a first segment leads to, and what comes then. -/
theorem climbs_cons : Climbs spare place (segment :: ss) ↔
    segment = ['.', '.'] ∧ place.length ≤ spare ∨ Climbs spare (follow place segment) ss := by
  constructor
  · rintro ⟨before, after, parts, few⟩
    cases before with
    | nil =>
      cases parts
      exact .inl ⟨rfl, few⟩
    | cons first rest =>
      cases parts
      exact .inr ⟨rest, after, rfl, few⟩
  · rintro (⟨rfl, few⟩ | ⟨before, after, rfl, few⟩)
    · exact ⟨[], ss, rfl, few⟩
    · exact ⟨segment :: before, after, rfl, few⟩

theorem not_climbs_nil : ¬ Climbs spare place [] := by
  rintro ⟨before, after, parts, _⟩
  simp at parts

instance decidableClimbs (spare : Nat) :
    (place ss : List (List Char)) → Decidable (Climbs spare place ss)
  | _, [] => .isFalse not_climbs_nil
  | place, segment :: rest =>
    have := decidableClimbs spare (follow place segment) rest
    decidable_of_iff _ climbs_cons.symm

/-! ## Spellings -/

namespace Respelled

theorem refl (ss : List (List Char)) : Respelled ss ss := Relation.EqvGen.refl ss

theorem symm (same : Respelled ss ss') : Respelled ss' ss := Relation.EqvGen.symm _ _ same

theorem trans {ss'' : List (List Char)} (first : Respelled ss ss') (second : Respelled ss' ss'') :
    Respelled ss ss'' := Relation.EqvGen.trans _ _ _ first second

theorem shorten (shortens : Shortens ss ss') : Respelled ss ss' := .rel _ _ shortens

/-- All spellings of a path lead to one place. -/
theorem settle_eq (same : Respelled ss ss') (place : List (List Char)) :
    settle place ss = settle place ss' := by
  induction same with
  | rel ss ss' shortens =>
    cases shortens with
    | stay before after puts => simp [follow_of_staysPut puts]
    | back before after proper => simp [follow_name proper]
  | refl => rfl
  | symm _ _ _ ih => exact ih.symm
  | trans _ _ _ _ _ first second => exact first.trans second

/-- The names of a place with segments after them are another spelling of the place that the
segments lead to, if nobody climbs above the top on the way. -/
theorem of_settle (names : ∀ name ∈ place, Proper name) (whole : ∀ segment ∈ ss, '/' ∉ segment)
    (stays : ¬ Climbs 0 place ss) : Respelled (place ++ ss) (settle place ss) := by
  induction ss generalizing place with
  | nil => simpa using refl place
  | cons segment rest ih =>
    rw [climbs_cons, not_or] at stays
    have whole' : ∀ later ∈ rest, '/' ∉ later := fun later member => whole later (by simp [member])
    rw [settle_cons]
    rcases segment_cases (whole segment (by simp)) with puts | rfl | proper
    · rw [follow_of_staysPut puts] at stays ⊢
      exact (shorten (.stay place rest puts)).trans (ih names whole' stays.2)
    · obtain ⟨below, last, rfl⟩ : ∃ below last, place = below ++ [last] := by
        rcases List.eq_nil_or_concat place with rfl | known
        · simp at stays
        · simpa using known
      rw [follow_up, List.dropLast_concat] at stays ⊢
      have shorter := shorten (.back below rest (names last (by simp)))
      rw [List.append_assoc, List.singleton_append]
      exact shorter.trans (ih (fun name member => names name (by simp [member])) whole' stays.2)
    · rw [follow_name proper] at stays ⊢
      have names' : ∀ name ∈ place ++ [segment], Proper name := by
        simpa [or_imp, forall_and] using ⟨names, proper⟩
      simpa using ih names' whole' stays.2

end Respelled

/-- Paths that never climb above the top lead to one place exactly if they are spellings of
each other. -/
theorem settle_eq_iff (whole : ∀ segment ∈ ss, '/' ∉ segment)
    (whole' : ∀ segment ∈ ss', '/' ∉ segment) (stays : ¬ Climbs 0 [] ss)
    (stays' : ¬ Climbs 0 [] ss') : settle [] ss = settle [] ss' ↔ Respelled ss ss' := by
  refine ⟨fun same => ?_, fun same => same.settle_eq []⟩
  have first : Respelled ss _ := .of_settle (by simp) whole stays
  have second : Respelled ss' _ := .of_settle (by simp) whole' stays'
  rw [← same] at second
  exact first.trans second.symm

end MixedModules.Specifier.Path
