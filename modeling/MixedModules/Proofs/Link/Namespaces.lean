import Mathlib.Data.List.Induction
import MixedModules.Engine
import MixedModules.Proofs.Link.ExportReachability
import MixedModules.Proofs.Link.Reserving
import MixedModules.Proofs.Registry.Linkage

/-! What a namespace shows.

The names of a module are its own and those that its stars give on. They are collected by a
search that comes to each module once, so it finds every name that resolves to a slot. A
namespace then reads each of them in that slot, whenever it is asked. -/
namespace MixedModules
open Relation

variable {κ : Type}

namespace Registry

variable {r : Registry κ} {s : Store κ} {m target : ModuleId} {name : String}
  {names more : List String} {before between after : List ModuleId}

/-- A module gives on what another one exports. -/
def Stars (r : Registry κ) (m target : ModuleId) : Prop :=
  ∃ i, r.get? m = some i ∧ target ∈ i.starTargets

theorem mem_addStarNames :
    name ∈ addStarNames names more ↔ name ∈ names ∨ name ∈ more ∧ name ≠ defaultName := by
  unfold addStarNames
  induction more generalizing names with
  | nil => simp
  | cons first rest ih =>
    rw [List.foldl_cons, ih]
    split <;> grind

/-- What a search from `m` has come to, after the modules `before`: it has come to the stars of
each module, and has collected what can be given on, and of `m` all names. -/
structure Collects (r : Registry κ) (m : ModuleId) (before after : List ModuleId)
    (names : List String) : Prop where
  more : before ⊆ after
  here : m ∈ after
  closed : ∀ x ∈ after, x ∉ before → ∀ target, r.Stars x target → target ∈ after
  named : ∀ x ∈ after, x ∉ before → ∀ i, r.get? x = some i → ∀ decl ∈ i.record.exports,
    x = m ∨ decl.name ≠ defaultName → decl.name ∈ names

/-- A search through the stars of `m`, so far. -/
structure Collecting (r : Registry κ) (m : ModuleId) (begun after done : List ModuleId)
    (own names : List String) : Prop where
  more : begun ⊆ after
  own : own ⊆ names
  done : done ⊆ after
  closed : ∀ x ∈ after, x ∉ begun → ∀ target, r.Stars x target → target ∈ after
  named : ∀ x ∈ after, x ∉ begun → ∀ i, r.get? x = some i → ∀ decl ∈ i.record.exports,
    decl.name ≠ defaultName → decl.name ∈ names

theorem Collecting.collects {begun done : List ModuleId} {own : List String}
    (collecting : r.Collecting m begun between done own names)
    (collects : r.Collects target between after more) :
    r.Collecting m begun after (done ++ [target]) own (addStarNames names more) where
  more := List.Subset.trans collecting.more collects.more
  own := fun name held => mem_addStarNames.mpr (.inl (collecting.own held))
  done := List.append_subset.mpr
    ⟨List.Subset.trans collecting.done collects.more, by simpa using collects.here⟩
  closed x came new target stars := by
    by_cases early : x ∈ between
    · exact collects.more (collecting.closed x early new target stars)
    · exact collects.closed x came early target stars
  named x came new i known decl declared passedOn := by
    by_cases early : x ∈ between
    · exact mem_addStarNames.mpr (.inl (collecting.named x early new i known decl declared passedOn))
    · exact mem_addStarNames.mpr
        (.inr ⟨collects.named x came early i known decl declared (.inr passedOn), passedOn⟩)

/-- The stars of a module are searched one after the other. -/
theorem Collecting.foldl (search : ModuleId → List ModuleId → List String × List ModuleId)
    (todo : List ModuleId) {begun done : List ModuleId} {own : List String}
    (each : ∀ target before, begun ⊆ before →
      r.Collects target before (search target before).2 (search target before).1)
    (collecting : r.Collecting m begun between done own names) :
    r.Collecting m begun
      (todo.foldl (fun (names, seen) target =>
        let (more, seen) := search target seen
        (addStarNames names more, seen)) (names, between)).2 (done ++ todo) own
      (todo.foldl (fun (names, seen) target =>
        let (more, seen) := search target seen
        (addStarNames names more, seen)) (names, between)).1 := by
  induction todo generalizing done names between with
  | nil => simpa using collecting
  | cons target rest ih =>
    have next := collecting.collects (each target between collecting.more)
    rw [List.append_cons]
    exact ih next

/-- A search that goes deep enough comes to everything. `path` are modules that it is below. -/
theorem collects_collectNames {depth : Nat} {path : List ModuleId} (distinct : path.Nodup)
    (registered : ∀ x ∈ path, x.index < r.size) (seen : path ⊆ before)
    (deep : r.size < depth + path.length) :
    r.Collects m before (r.collectNames depth m before).2 (r.collectNames depth m before).1 := by
  induction depth generalizing m before path with
  | zero =>
    have short := length_le_size distinct registered
    omega
  | succ depth ih =>
    unfold collectNames
    by_cases came : m ∈ before
    · rw [if_pos (by simpa using came)]
      exact ⟨List.Subset.refl _, came, fun x held new => absurd held new,
        fun x held new => absurd held new⟩
    rw [if_neg (by simpa using came)]
    cases known : r.get? m with
    | none =>
      refine ⟨List.subset_cons_self _ _, List.mem_cons_self, fun x held new target ⟨i, there, _⟩ => ?_,
        fun x held new i there => ?_⟩
      all_goals
        rcases List.mem_cons.mp held with rfl | old
        · cases known.symm.trans there
        · exact absurd old new
    | some i =>
      have begun : r.Collecting m (m :: before) (m :: before) [] (i.record.exports.map (·.name))
          (i.record.exports.map (·.name)) :=
        ⟨List.Subset.refl _, List.Subset.refl _, by simp, fun x held new => absurd held new,
          fun x held new => absurd held new⟩
      have inside : m.index < r.size := (Array.getElem?_eq_some_iff.mp known).1
      have whole := begun.foldl (r.collectNames depth) i.starTargets
        fun target after more => ih
          (List.nodup_cons.mpr ⟨fun held => came (seen held), distinct⟩)
          (List.forall_mem_cons.mpr ⟨inside, registered⟩)
          (List.Subset.trans (List.cons_subset_cons m seen) more)
          (by rw [List.length_cons]; omega)
      refine ⟨List.Subset.trans (List.subset_cons_self _ _) whole.more,
        whole.more List.mem_cons_self, fun x held new target gives => ?_,
        fun x held new j there decl declared given => ?_⟩
      · by_cases top : x = m
        · subst top
          obtain ⟨j, there, listed⟩ := gives
          cases known.symm.trans there
          exact whole.done listed
        · exact whole.closed x held (by simp [top, new]) target gives
      · by_cases top : x = m
        · subst top
          cases known.symm.trans there
          exact whole.own (List.mem_map_of_mem declared)
        · exact whole.named x held (by simp [top, new]) j there decl declared
            (given.resolve_left top)

/-- A name that leads somewhere is declared by a module that stars lead to, and is given on by
these. -/
theorem exists_declared {q : Question} (path : ReflTransGen r.LeadsTo (m, name) q) (ends : r.Ends q) :
    ∃ x i, ReflTransGen r.Stars m x ∧ r.get? x = some i ∧ (∃ decl ∈ i.record.exports, decl.name = name) ∧
      (x = m ∨ name ≠ defaultName) := by
  generalize start : (m, name) = p at path
  induction path using ReflTransGen.head_induction_on generalizing m with
  | refl =>
    subst start
    obtain ⟨i, known, decl, declared, named, _⟩ := ends
    exact ⟨m, i, .refl, known, ⟨decl, declared, named⟩, .inl rfl⟩
  | head edge _ ih =>
    subst start
    cases edge with
    | @indirect _ _ _ _ _ i decl known declared named _ _ =>
      exact ⟨m, i, .refl, known, ⟨decl, declared, named⟩, .inl rfl⟩
    | @star _ target _ specifier i known _ passedOn listed resolved =>
      obtain ⟨x, j, stars, there, declares, _⟩ := ih rfl
      have gives : r.Stars m target := ⟨i, known, List.mem_filterMap.mpr ⟨specifier, listed, resolved⟩⟩
      exact ⟨x, j, .head gives stars, there, declares, .inr passedOn⟩

/-- A name that leads somewhere is one of the names of the module. -/
theorem mem_exportedNames {q : Question} (path : ReflTransGen r.LeadsTo (m, name) q)
    (ends : r.Ends q) : name ∈ r.exportedNames m := by
  obtain ⟨_, here, closed, named⟩ : r.Collects m [] (r.collectNames (r.size + 1) m []).2
      (r.collectNames (r.size + 1) m []).1 :=
    collects_collectNames List.nodup_nil (by simp) (by simp) (by simp)
  obtain ⟨x, i, stars, known, ⟨decl, declared, rfl⟩, given⟩ := exists_declared path ends
  refine named x ?_ (by simp) i known decl declared given
  clear known given
  induction stars with
  | refl => exact here
  | tail _ edge ih => exact closed _ ih (by simp) _ edge

end Registry

namespace Scope

variable {α : Type} {pairs : List (String × α)} {scope : Scope α} {name : String} {a : α}

/-- Where each name stands for one thing, it is found under it. -/
theorem get?_ofPairs (member : (name, a) ∈ pairs) (only : ∀ b, (name, b) ∈ pairs → b = a) :
    (ofPairs pairs).get? name = some a := by
  induction pairs using List.reverseRecOn with
  | nil => cases member
  | append_singleton pairs pair ih =>
    rw [ofPairs, List.foldl_append, ← ofPairs, List.foldl_cons, List.foldl_nil, get?_put]
    split
    · next same =>
      rw [only pair.2 (by simp [← same])]
    · next other =>
      refine ih ?_ fun b held => only b (List.mem_append_left _ held)
      exact (List.mem_append.mp member).resolve_right fun last => other
        (congrArg Prod.fst (List.mem_singleton.mp last)).symm

/-- What is found under a name is one of the pairs. -/
theorem mem_of_get?_ofPairs (found : (ofPairs pairs).get? name = some a) : (name, a) ∈ pairs := by
  induction pairs using List.reverseRecOn with
  | nil => cases found
  | append_singleton pairs pair ih =>
    rw [ofPairs, List.foldl_append, ← ofPairs, List.foldl_cons, List.foldl_nil, get?_put] at found
    split at found
    · next same =>
      cases found
      simp [← same]
    · exact List.mem_append_left _ (ih found)

theorem nodup_names_ofPairs (pairs : List (String × α)) : (ofPairs pairs).names.Nodup := by
  induction pairs using List.reverseRecOn with
  | nil => exact List.nodup_nil
  | append_singleton pairs pair ih =>
    rw [ofPairs, List.foldl_append, ← ofPairs]
    exact nodup_names_put ih pair.1 pair.2

/-- Sorting leaves the entries as they are. -/
theorem sorted_perm (scope : Scope α) : scope.sorted.Perm scope.entries :=
  List.mergeSort_perm scope.entries fun a b => a.1 ≤ b.1

theorem nodup_sorted (distinct : scope.names.Nodup) : (scope.sorted.map (·.1)).Nodup :=
  (scope.sorted_perm.map Prod.fst).nodup_iff.mpr distinct

/-- A pair is among the sorted ones where it is found under its name. -/
theorem mem_sorted (distinct : scope.names.Nodup) :
    (name, a) ∈ scope.sorted ↔ scope.get? name = some a := by
  rw [scope.sorted_perm.mem_iff]
  refine ⟨get?_of_mem distinct, fun found => ?_⟩
  obtain ⟨⟨first, value⟩, held, rfl⟩ := Option.map_eq_some_iff.mp found
  obtain rfl : first = name := by simpa using List.find?_some held
  exact List.mem_of_find?_eq_some held

end Scope

namespace Registry

variable {r : Registry κ} {s : Store κ} {m owner : ModuleId} {name : String} {slot : SlotId}

/-- A namespace has one entry for a name. -/
theorem nodup_namespaceSlots (r : Registry κ) (s : Store κ) (m : ModuleId) :
    ((r.namespaceSlots s m).map (·.1)).Nodup :=
  Scope.nodup_sorted (Scope.nodup_names_ofPairs _)

/-- A namespace shows a name in the slot that the name resolves to, and no other names. -/
theorem mem_namespaceSlots (ready : r.Resolvable s r.Linked) (linked : r.Linked m) :
    (name, slot) ∈ r.namespaceSlots s m ↔ ∃ owner, r.resolve s m name = .found owner slot := by
  have verdict := verdict_resolve ready linked name
  unfold namespaceSlots
  rw [Scope.mem_sorted (Scope.nodup_names_ofPairs _)]
  generalize collected : List.filterMap _ (r.exportedNames m) = pairs
  have shown : ∀ other, (name, other) ∈ pairs → ∃ owner, r.resolve s m name = .found owner other := by
    intro other held
    rw [← collected] at held
    obtain ⟨asked, _, same⟩ := List.mem_filterMap.mp held
    split at same
    · next owner slot resolved =>
      cases same
      exact ⟨owner, resolved⟩
    · cases same
  constructor
  · exact fun found => shown slot (Scope.mem_of_get?_ofPairs found)
  · rintro ⟨owner, found⟩
    rw [found] at verdict
    cases verdict with
    | one exported reached gives only =>
      refine Scope.get?_ofPairs ?_ fun other held => ?_
      · rw [← collected]
        exact List.mem_filterMap.mpr ⟨name, mem_exportedNames reached gives.1, by simp [found]⟩
      · obtain ⟨_, resolved⟩ := shown other held
        rw [found] at resolved
        cases resolved
        rfl

/-- The default name stands for something only where a module declares it itself. -/
theorem declares_default (ready : r.Resolvable s r.Linked) (linked : r.Linked m)
    (found : r.resolve s m defaultName = .found owner slot) :
    ∃ i, r.get? m = some i ∧ ∃ decl ∈ i.record.exports, decl.name = defaultName := by
  have verdict := verdict_resolve ready linked defaultName
  rw [found] at verdict
  cases verdict with
  | one exported reached gives only =>
    obtain ⟨x, i, _, known, declares, own⟩ := exists_declared reached gives.1
    obtain rfl := own.resolve_right fun passedOn => passedOn rfl
    exact ⟨i, known, declares⟩

end Registry

namespace Engine

variable {engine : Engine κ} {s : Store κ} {m owner : ModuleId} {name : String} {slot : SlotId}

/-- Whatever a name resolves to, the namespace reads it there, in the store of any moment. -/
theorem read_namespaceOf (ready : engine.registry.Resolvable s engine.registry.Linked)
    (linked : engine.registry.Linked m) (found : engine.registry.resolve s m name = .found owner slot)
    (now : Store κ) : (engine.namespaceOf s m).read now name = now.readSlot slot := by
  have member := (Registry.mem_namespaceSlots ready linked).mpr ⟨owner, found⟩
  have held : (⟨engine.registry.namespaceSlots s m⟩ : Scope SlotId).get? name = some slot :=
    Scope.get?_of_mem (engine.registry.nodup_namespaceSlots s m) member
  obtain ⟨entry, there, rfl⟩ := Option.map_eq_some_iff.mp held
  simp only [Namespace.read, namespaceOf]
  rw [there]

end Engine
end MixedModules
