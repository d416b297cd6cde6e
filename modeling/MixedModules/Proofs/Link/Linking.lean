import MixedModules.Link.Basic
import MixedModules.Proofs.Graph.Building
import MixedModules.Proofs.Graph.Components
import MixedModules.Proofs.Registry.Linkage

/-! What linking a graph does to the registry.

The modules of the graph that were not linked are linked, in components that the rest
of the registry does not change: no way from one of them through modules that were
linked before comes back. -/
namespace MixedModules
open Relation

namespace Links

variable {κ : Type} {l l' : Links κ} {g : ModuleGraph} {m : ModuleId}

/-- The modules that staging gives an environment. -/
theorem get?_stage (l : Links κ) (m x : ModuleId) :
    (l.stage m).registry.get? x =
      if m = x then (l.registry.get? x).map fun i => { i with
        environment := i.environment <|> some (l.store.allocate i.identity i.record).1 }
      else l.registry.get? x := by
  unfold stage
  cases known : l.registry.get? m with
  | none =>
    by_cases same : m = x
    · subst same
      simp [known]
    · simp [same]
  | some i =>
    by_cases same : m = x
    · subst same
      cases environment : i.environment with
      | none => simp [known, environment, Instance.isLinked, Registry.get?_modify]
      | some e =>
        cases i
        simp_all [Instance.isLinked]
    · by_cases linked : i.isLinked <;> simp [linked, same, Registry.get?_modify]

theorem components_stage (l : Links κ) (m : ModuleId) (c : ComponentId) :
    (l.stage m).registry.component? c = l.registry.component? c := by
  unfold stage
  split
  · rfl
  · split <;> rfl

theorem entered_stage (l : Links κ) (m : ModuleId) :
    (l.stage m).registry.entered = l.registry.entered := by
  unfold stage
  split
  · rfl
  · split <;> rfl

theorem linked_stage {x : ModuleId} (linked : l.registry.Linked x) :
    (l.stage m).registry.get? x = l.registry.get? x := by
  obtain ⟨i, known, linked⟩ := linked
  obtain ⟨e, environment⟩ := Option.isSome_iff_exists.mp linked
  rw [get?_stage, known]
  split
  · cases i
    simp_all
  · rfl

/-- Staging gives modules an environment and changes nothing else about them, and a
module that has one keeps it. -/
theorem get?_staged (ms : List ModuleId) (l : Links κ) (x : ModuleId) :
    (∃ environment, (ms.foldl stage l).registry.get? x =
      (l.registry.get? x).map fun i => { i with environment }) ∧
    (x ∉ ms ∨ l.registry.Linked x → (ms.foldl stage l).registry.get? x = l.registry.get? x) ∧
    (x ∈ ms → ∀ i, (ms.foldl stage l).registry.get? x = some i → i.isLinked = true) := by
  induction ms generalizing l with
  | nil =>
    refine ⟨?_, fun _ => rfl, by simp⟩
    cases known : l.registry.get? x with
    | none => exact ⟨none, known⟩
    | some i => exact ⟨i.environment, known⟩
  | cons m rest ih =>
    obtain ⟨⟨environment, change⟩, unchanged, linked⟩ := ih (l.stage m)
    have step := get?_stage l m x
    simp only [List.foldl_cons]
    refine ⟨?_, fun kept => ?_, fun member i known => ?_⟩
    · rw [change, step]
      split
      · exact ⟨environment, by rw [Option.map_map]; rfl⟩
      · exact ⟨environment, rfl⟩
    · rcases kept with absent | already
      · simp only [List.mem_cons, not_or] at absent
        obtain ⟨other, absent⟩ := absent
        rw [unchanged (.inl absent), step, if_neg (Ne.symm other)]
      · have same : (l.stage m).registry.get? x = l.registry.get? x := linked_stage already
        refine (unchanged (.inr ?_)).trans same
        obtain ⟨i, known, held⟩ := already
        exact ⟨i, same.trans known, held⟩
    · rcases List.mem_cons.mp member with rfl | later
      · -- The module is linked now, so the rest of the staging leaves it alone.
        rw [if_pos rfl] at step
        cases before : l.registry.get? x with
        | none =>
          rw [change, step, before] at known
          cases known
        | some j =>
          rw [before, Option.map_some] at step
          have now : (l.stage x).registry.Linked x := ⟨_, step, by cases j.environment <;> rfl⟩
          rw [unchanged (.inr now), step] at known
          cases known
          cases j.environment <;> rfl
      · exact linked later i known

theorem component?_staged (ms : List ModuleId) (l : Links κ) (c : ComponentId) :
    (ms.foldl stage l).registry.component? c = l.registry.component? c := by
  induction ms generalizing l with
  | nil => rfl
  | cons m rest ih => rw [List.foldl_cons, ih, components_stage]

theorem entered_staged (ms : List ModuleId) (l : Links κ) :
    (ms.foldl stage l).registry.entered = l.registry.entered := by
  induction ms generalizing l with
  | nil => rfl
  | cons m rest ih => rw [List.foldl_cons, ih, entered_stage]

/-! ## Binding -/

/-- What it takes to resolve an import, and what comes of it. -/
theorem resolveImport_eq_ok {importer : Instance κ} {decl : ImportDecl} {binding : ImportBinding}
    (ran : resolveImport l importer decl = .ok (binding, l')) :
    ∃ target origin slot owner, importer.dependency? decl.specifier = some target ∧
      l.registry.resolve l.store target decl.name = .found origin slot ∧
      l.registry.get? origin = some owner ∧
      (importer.kind = .binary → owner.kind = .binary →
        checkLink decl.kind decl.type ((l.store.slot? slot).getD default).kind
          ((l.store.slot? slot).getD default).type = .ok ()) ∧
      binding = ⟨decl.specifier, decl.name, decl.localName, decl.kind, decl.type, origin, owner.kind,
        slot, ⟨l.store.slots.size⟩, bindingMode importer.kind owner.kind⟩ ∧
      l' = { l with store := (l.store.addSlot
        ⟨importer.identity, decl.localName, decl.kind, decl.type, .uninitialized⟩).2 } := by
  unfold resolveImport at ran
  cases dependency : importer.dependency? decl.specifier with
  | none => simp [dependency] at ran
  | some target =>
    simp only [dependency] at ran
    cases resolved : l.registry.resolve l.store target decl.name with
    | notFound => simp [resolved] at ran
    | ambiguous => simp [resolved] at ran
    | found origin slot =>
      simp only [resolved] at ran
      cases known : l.registry.get? origin with
      | none => simp [known] at ran
      | some owner =>
        simp only [known] at ran
        refine ⟨target, origin, slot, owner, rfl, resolved, known, ?_⟩
        by_cases both : importer.kind = .binary ∧ owner.kind = .binary
        · simp only [both, and_self, ↓reduceIte] at ran
          obtain ⟨importerBinary, ownerBinary⟩ := both
          cases fits : checkLink decl.kind decl.type ((l.store.slot? slot).getD default).kind
              ((l.store.slot? slot).getD default).type with
          | error reason =>
            rw [fits] at ran
            cases ran
          | ok passed =>
            rw [fits] at ran
            cases ran
            rw [importerBinary, ownerBinary]
            exact ⟨fun _ _ => rfl, rfl, rfl⟩
        · simp only [both, ↓reduceIte] at ran
          cases ran
          exact ⟨fun one other => absurd ⟨one, other⟩ both, rfl, rfl⟩

theorem registry_resolveImports {importer : Instance κ} {decls : List ImportDecl}
    {bindings bindings' : Scope ImportBinding}
    (ran : resolveImports importer decls bindings l = .ok (bindings', l')) :
    l'.registry = l.registry := by
  induction decls generalizing bindings l with
  | nil =>
    cases ran
    rfl
  | cons decl rest ih =>
    obtain ⟨⟨binding, between⟩, first, others⟩ := bind_eq_ok ran
    obtain ⟨_, _, _, _, _, _, _, _, _, rfl⟩ := resolveImport_eq_ok first
    have rest := ih others
    exact rest

/-- A module that has no environment is left alone; any other gets its imports. -/
theorem bindModule_cases (ran : bindModule l m = .ok l') : l' = l ∨
    ∃ i e imports between, l.registry.get? m = some i ∧ i.environment = some e ∧
      resolveImports i i.record.imports .empty l = .ok (imports, between) ∧
      l' = { between with
        store := between.store.modifyEnvironment e fun env => { env with imports } } := by
  unfold bindModule at ran
  cases known : l.registry.get? m with
  | none =>
    simp only [known] at ran
    cases ran
    exact .inl rfl
  | some i =>
    cases environment : i.environment with
    | none =>
      simp only [known, environment] at ran
      cases ran
      exact .inl rfl
    | some e =>
      simp only [known, environment] at ran
      obtain ⟨⟨imports, between⟩, binds, rest⟩ := bind_eq_ok ran
      cases rest
      exact .inr ⟨i, e, imports, between, rfl, environment, binds, rfl⟩

theorem registry_bindModule (ran : bindModule l m = .ok l') : l'.registry = l.registry := by
  rcases bindModule_cases ran with rfl | ⟨i, e, imports, between, _, _, binds, rfl⟩
  · rfl
  · have same := registry_resolveImports binds
    exact same

theorem registry_bindAll {ms : List ModuleId} (ran : ms.foldlM bindModule l = .ok l') :
    l'.registry = l.registry := by
  induction ms generalizing l with
  | nil =>
    cases ran
    rfl
  | cons m rest ih =>
    rw [List.foldlM_cons] at ran
    obtain ⟨between, first, others⟩ := bind_eq_ok ran
    exact (ih others).trans (registry_bindModule first)

/-- What a graph is linked in: its modules are staged and bound, and their components
are added. -/
theorem link_eq_ok (ran : link l g = .ok l') :
    g.binaryCycle? = none ∧ ∃ bound : Links κ,
      (l.pending g).foldlM bindModule ((l.pending g).foldl stage l) = .ok bound ∧
      l' = { bound with registry :=
        (g.components (l.pending g).contains).foldl Registry.addComponent bound.registry } := by
  unfold link at ran
  cases cycle : g.binaryCycle? with
  | some cyclic =>
    simp only [cycle] at ran
    cases ran
  | none =>
    simp only [cycle] at ran
    obtain ⟨bound, binds, rest⟩ := bind_eq_ok ran
    cases rest
    exact ⟨rfl, bound, binds, rfl⟩

theorem mem_pending : m ∈ l.pending g ↔
    m ∈ g.modules ∧ ∃ i, l.registry.get? m = some i ∧ i.isLinked = false := by
  simp [pending, Option.any_eq_true]

theorem not_mem_pending (linked : l.registry.Linked m) : m ∉ l.pending g := by
  obtain ⟨i, known, linked⟩ := linked
  intro member
  obtain ⟨_, j, known', open_⟩ := mem_pending.mp member
  cases known.symm.trans known'
  exact absurd linked (by simp [open_])

end Links

namespace Registry

variable {κ : Type} {r r' : Registry κ} {g : ModuleGraph} {members : List ModuleId} {m : ModuleId}

theorem componentOf?_addComponent (registered : ∀ m ∈ members, ∃ i, r.get? m = some i) :
    (r.addComponent members).componentOf? m =
      if m ∈ members then some ⟨r.components.size⟩ else r.componentOf? m := by
  unfold componentOf?
  rw [get?_addComponent]
  split
  · next member =>
    obtain ⟨i, known⟩ := registered m member
    simp [known]
  · rfl

theorem dependsOn_addComponent {target : ModuleId} :
    (r.addComponent members).DependsOn m target ↔ r.DependsOn m target := by
  unfold DependsOn
  rw [get?_addComponent]
  split
  · cases r.get? m <;> simp [Instance.targets]
  · rfl

theorem mutual_addComponent {other : ModuleId} :
    (r.addComponent members).Mutual m other ↔ r.Mutual m other := by
  have same : (r.addComponent members).DependsOn = r.DependsOn := by
    funext a b
    exact propext dependsOn_addComponent
  rw [Mutual, same, Mutual]

/-- New modules that depend on each other, and on no grouped module both ways, make up
one more component. -/
theorem Grouped.addComponent (grouped : r.Grouped)
    (ungrouped : ∀ m ∈ members, r.componentOf? m = none)
    (registered : ∀ m ∈ members, ∃ i, r.get? m = some i)
    (strong : ∀ m ∈ members, ∀ other, other ∈ members ↔ r.Mutual m other) :
    (r.addComponent members).Grouped := by
  have old : ∀ {m c}, r.componentOf? m = some c → m ∉ members ∧ c.index ≠ r.components.size := by
    intro m c held
    refine ⟨fun member => ?_, fun last => ?_⟩
    · rw [ungrouped m member] at held
      cases held
    · obtain ⟨component, known, _⟩ := (grouped.members m c).mp held
      have inside := (Array.getElem?_eq_some_iff.mp known).1
      omega
  constructor
  · intro m c
    rw [componentOf?_addComponent registered, component?_addComponent]
    by_cases member : m ∈ members
    · rw [if_pos member]
      constructor
      · rintro same
        cases same
        exact ⟨.new members, if_pos rfl, member⟩
      · rintro ⟨component, known, inside⟩
        split at known
        · next last =>
          cases c
          simp_all
        · have held := (grouped.members m c).mpr ⟨component, known, inside⟩
          exact absurd member (old held).1
    · rw [if_neg member, grouped.members]
      constructor
      · rintro ⟨component, known, inside⟩
        have held := (grouped.members m c).mpr ⟨component, known, inside⟩
        exact ⟨component, by rw [if_neg (old held).2, known], inside⟩
      · rintro ⟨component, known, inside⟩
        split at known
        · cases known
          exact absurd inside member
        · exact ⟨component, known, inside⟩
  · intro m other c c' held held'
    rw [componentOf?_addComponent registered] at held held'
    rw [mutual_addComponent]
    by_cases member : m ∈ members
    · rw [if_pos member] at held
      cases held
      rw [← strong m member other]
      by_cases also : other ∈ members
      · rw [if_pos also] at held'
        cases held'
        simp [also]
      · rw [if_neg also] at held'
        have apart := (old held').2
        constructor
        · rintro rfl
          exact absurd rfl apart
        · exact fun inside => absurd inside also
    · rw [if_neg member] at held
      by_cases also : other ∈ members
      · rw [if_pos also] at held'
        cases held'
        have apart := (old held).2
        constructor
        · rintro rfl
          exact absurd rfl apart
        · exact fun ⟨there, back⟩ => absurd ((strong other also m).mpr ⟨back, there⟩) member
      · rw [if_neg also] at held'
        exact grouped.strong m other c c' held held'

/-- Modules are the same up to their environments and components. -/
def Reassigned (r r' : Registry κ) : Prop :=
  ∀ m, ∃ environment component,
    r'.get? m = (r.get? m).map fun i => { i with environment, component }

namespace Reassigned

variable {target : ModuleId} {r'' : Registry κ}

theorem trans (one : r.Reassigned r') (other : r'.Reassigned r'') : r.Reassigned r'' := by
  intro m
  obtain ⟨_, _, change⟩ := one m
  obtain ⟨environment, component, change'⟩ := other m
  exact ⟨environment, component, by rw [change', change, Option.map_map]; rfl⟩

theorem dependsOn_iff (same : r.Reassigned r') : r'.DependsOn m target ↔ r.DependsOn m target := by
  obtain ⟨_, _, change⟩ := same m
  unfold DependsOn
  rw [change]
  cases r.get? m <;> simp [Instance.targets]

theorem resolved_iff (same : r.Reassigned r') {dependencies : Dependencies} :
    r'.Resolved m dependencies ↔ r.Resolved m dependencies := by
  obtain ⟨_, _, change⟩ := same m
  unfold Resolved
  rw [change]
  cases r.get? m <;> simp

theorem mutual_iff (same : r.Reassigned r') {other : ModuleId} :
    r'.Mutual m other ↔ r.Mutual m other := by
  have depends : r'.DependsOn = r.DependsOn := by
    funext a b
    exact propext same.dependsOn_iff
  rw [Mutual, depends, Mutual]

theorem stocked (same : r.Reassigned r') (stocked : r.Stocked) : r'.Stocked := by
  refine stocked.transfer (fun m i known => ?_) fun m i known => ?_
  · obtain ⟨environment, component, change⟩ := same m
    rw [known] at change
    obtain ⟨j, before, rfl⟩ := Option.map_eq_some_iff.mp change.symm
    exact ⟨j, before, rfl, rfl⟩
  · obtain ⟨environment, component, change⟩ := same m
    rw [known] at change
    exact ⟨_, change⟩

end Reassigned

/-- A registry with more components: their modules are grouped now, and nothing else is
different. -/
structure Regrouped (r : Registry κ) (fresh : List ModuleId) (r' : Registry κ) : Prop where
  modules : ∀ m, ∃ component, r'.get? m = (r.get? m).map fun i => { i with component }
  kept : ∀ m, m ∉ fresh → r'.get? m = r.get? m
  placed : ∀ m ∈ fresh, ∃ c, r'.componentOf? m = some c
  old : ∀ c component, r.component? c = some component → r'.component? c = some component
  new : ∀ c component, r'.component? c = some component → r.component? c = some component ∨
    component.claim = .free ∧ ∀ m ∈ component.members, m ∈ fresh
  entered : r'.entered = r.entered

theorem Regrouped.reassigned {fresh : List ModuleId} (change : r.Regrouped fresh r') :
    r.Reassigned r' := by
  intro m
  obtain ⟨component, same⟩ := change.modules m
  cases known : r.get? m with
  | none => exact ⟨none, none, by rw [same, known]; rfl⟩
  | some i => exact ⟨i.environment, component, by rw [same, known]; rfl⟩

theorem Regrouped.linked_iff {fresh : List ModuleId} (change : r.Regrouped fresh r') :
    r'.Linked m ↔ r.Linked m := by
  obtain ⟨component, same⟩ := change.modules m
  unfold Linked
  rw [same]
  cases r.get? m <;> simp [Instance.isLinked]

theorem Regrouped.refl (r : Registry κ) : r.Regrouped [] r := by
  refine ⟨fun m => ?_, fun _ _ => rfl, by simp, fun _ _ h => h, fun _ _ h => .inl h, rfl⟩
  cases known : r.get? m with
  | none => exact ⟨none, rfl⟩
  | some i => exact ⟨i.component, rfl⟩

theorem regrouped_addComponent (registered : ∀ m ∈ members, ∃ i, r.get? m = some i) :
    r.Regrouped members (r.addComponent members) := by
  refine ⟨fun m => ?_, fun m apart => ?_, fun m member => ?_, fun c component known => ?_,
    fun c component known => ?_, by simp⟩
  · rw [get?_addComponent]
    split
    · exact ⟨_, rfl⟩
    · exact (Regrouped.refl r).modules m
  · rw [get?_addComponent, if_neg apart]
  · exact ⟨_, by rw [componentOf?_addComponent registered, if_pos member]⟩
  · have inside := (Array.getElem?_eq_some_iff.mp known).1
    rw [component?_addComponent, if_neg (by omega), known]
  · rw [component?_addComponent] at known
    split at known
    · cases known
      exact .inr ⟨rfl, fun m member => member⟩
    · exact .inl known

theorem Regrouped.trans {first second : List ModuleId} {r'' : Registry κ}
    (one : r.Regrouped first r') (other : r'.Regrouped second r'') :
    r.Regrouped (first ++ second) r'' := by
  refine ⟨fun m => ?_, fun m apart => ?_, fun m member => ?_, fun c component known => ?_,
    fun c component known => ?_, other.entered.trans one.entered⟩
  · obtain ⟨component, change⟩ := one.modules m
    obtain ⟨component', change'⟩ := other.modules m
    exact ⟨component', by rw [change', change, Option.map_map]; rfl⟩
  · rw [List.mem_append, not_or] at apart
    rw [other.kept m apart.2, one.kept m apart.1]
  · by_cases later : m ∈ second
    · exact other.placed m later
    · have early := (List.mem_append.mp member).resolve_right later
      unfold componentOf?
      rw [other.kept m later]
      exact one.placed m early
  · exact other.old c component (one.old c component known)
  · rcases other.new c component known with known | ⟨free, inside⟩
    · rcases one.new c component known with known | ⟨free, inside⟩
      · exact .inl known
      · exact .inr ⟨free, fun m member => List.mem_append_left _ (inside m member)⟩
    · exact .inr ⟨free, fun m member => List.mem_append_right _ (inside m member)⟩

/-- Adding components changes nothing else about a module. -/
theorem get?_addComponents (cs : List (List ModuleId)) (r : Registry κ) (m : ModuleId) :
    ∃ component, (cs.foldl Registry.addComponent r).get? m =
      (r.get? m).map fun i => { i with component } := by
  induction cs generalizing r with
  | nil => exact (Regrouped.refl r).modules m
  | cons members rest ih =>
    obtain ⟨component, change⟩ := ih (r.addComponent members)
    refine ⟨component, ?_⟩
    rw [List.foldl_cons, change, get?_addComponent]
    split
    · rw [Option.map_map]
      rfl
    · rfl

theorem Grouped.addComponents (cs : List (List ModuleId)) (grouped : r.Grouped)
    (distinct : cs.flatten.Nodup) (ungrouped : ∀ m ∈ cs.flatten, r.componentOf? m = none)
    (registered : ∀ m ∈ cs.flatten, ∃ i, r.get? m = some i)
    (strong : ∀ c ∈ cs, ∀ m ∈ c, ∀ other, other ∈ c ↔ r.Mutual m other) :
    (cs.foldl Registry.addComponent r).Grouped ∧
      r.Regrouped cs.flatten (cs.foldl Registry.addComponent r) := by
  induction cs generalizing r with
  | nil => exact ⟨grouped, .refl r⟩
  | cons members rest ih =>
    rw [List.flatten_cons] at distinct ungrouped registered
    rw [List.foldl_cons, List.flatten_cons]
    obtain ⟨_, distinctRest, separate⟩ := List.nodup_append.mp distinct
    have here : ∀ m ∈ members, ∃ i, r.get? m = some i := fun m member =>
      registered m (List.mem_append_left _ member)
    have step := grouped.addComponent
      (fun m member => ungrouped m (List.mem_append_left _ member)) here
      (strong members List.mem_cons_self)
    have change := regrouped_addComponent here
    have separate : ∀ m ∈ rest.flatten, (r.addComponent members).componentOf? m = none := by
      intro m member
      rw [componentOf?_addComponent here, if_neg fun first => separate m first m member rfl]
      exact ungrouped m (List.mem_append_right _ member)
    have there : ∀ m ∈ rest.flatten, ∃ i, (r.addComponent members).get? m = some i := by
      intro m member
      obtain ⟨i, known⟩ := registered m (List.mem_append_right _ member)
      obtain ⟨component, same⟩ := change.modules m
      exact ⟨_, by rw [same, known]; rfl⟩
    have strongRest : ∀ c ∈ rest, ∀ m ∈ c, ∀ other,
        other ∈ c ↔ (r.addComponent members).Mutual m other := by
      intro c inside m member other
      rw [mutual_addComponent]
      exact strong c (List.mem_cons_of_mem _ inside) m member other
    obtain ⟨groupedAfter, changes⟩ := ih step distinctRest separate there strongRest
    exact ⟨groupedAfter, change.trans changes⟩

end Registry

namespace Links

variable {κ : Type} {l l' : Links κ} {g : ModuleGraph} {m : ModuleId}

/-- A module of the graph is linked, or it is to be linked. -/
theorem linked_or_pending (faithful : g.Faithful l.registry) (member : m ∈ g.modules) :
    l.registry.Linked m ∨ m ∈ l.pending g := by
  obtain ⟨i, known⟩ := faithful.registered member
  by_cases linked : i.isLinked = true
  · exact .inl ⟨i, known, linked⟩
  · exact .inr (mem_pending.mpr ⟨member, i, known, by simpa using linked⟩)

/-- Inside the modules to be linked, the search sees the ways that lead there and back. -/
theorem mutual_pending (linkage : l.registry.Linkage) (faithful : g.Faithful l.registry)
    (member : m ∈ l.pending g) (other : ModuleId) :
    g.Reaches (l.pending g).contains m other ∧ g.Reaches (l.pending g).contains other m ↔
      l.registry.Mutual m other := by
  have edge : ∀ {a b}, a ∈ l.pending g →
      (g.Edge (l.pending g).contains a b ↔ l.registry.DependsOn a b ∧ b ∈ l.pending g) := by
    intro a b inside
    rw [ModuleGraph.Edge, faithful.mem_dependencies (mem_pending.mp inside).1]
    simp
  have down : ∀ {a b}, a ∈ l.pending g → g.Reaches (l.pending g).contains a b →
      b ∈ l.pending g ∧ ReflTransGen l.registry.DependsOn a b := by
    intro a b inside way
    induction way with
    | refl => exact ⟨inside, .refl⟩
    | tail _ step ih =>
      obtain ⟨depends, next⟩ := (edge ih.1).mp step
      exact ⟨next, ih.2.tail depends⟩
  -- A way that comes back to a module that is not linked meets no linked one.
  have around : ∀ {a b}, a ∈ l.pending g → ReflTransGen l.registry.DependsOn a b →
      ReflTransGen l.registry.DependsOn b a →
      b ∈ l.pending g ∧ g.Reaches (l.pending g).contains a b := by
    intro a b inside way
    induction way with
    | refl => exact fun _ => ⟨inside, .refl⟩
    | @tail b c _ step ih =>
      intro back
      obtain ⟨here, reached⟩ := ih (.head step back)
      have unlinked : ¬ l.registry.Linked c := fun linked =>
        not_mem_pending (linkage.reach linked back) inside
      have there := faithful.closed (mem_pending.mp here).1 step
      have next := (linked_or_pending faithful there).resolve_left unlinked
      exact ⟨next, reached.tail ((edge here).mpr ⟨step, next⟩)⟩
  constructor
  · rintro ⟨there, back⟩
    obtain ⟨also, way⟩ := down member there
    exact ⟨way, (down also back).2⟩
  · rintro ⟨there, back⟩
    obtain ⟨also, way⟩ := around member there back
    exact ⟨way, (around also back there).2⟩

/-- Linking succeeds in giving every module of the graph an environment and a component,
and changes nothing about modules that had them. -/
structure Joined (r : Registry κ) (fresh : List ModuleId) (r' : Registry κ) : Prop where
  reassigned : r.Reassigned r'
  kept : ∀ m, m ∉ fresh → r'.get? m = r.get? m
  linked : ∀ m, r'.Linked m ↔ r.Linked m ∨ m ∈ fresh
  old : ∀ c component, r.component? c = some component → r'.component? c = some component
  new : ∀ c component, r'.component? c = some component → r.component? c = some component ∨
    component.claim = .free ∧ ∀ m ∈ component.members, m ∈ fresh
  entered : r'.entered = r.entered

theorem reassigned_staged (ms : List ModuleId) (l : Links κ) :
    l.registry.Reassigned (ms.foldl stage l).registry := by
  intro m
  obtain ⟨⟨environment, change⟩, _⟩ := get?_staged ms l m
  cases known : l.registry.get? m with
  | none => exact ⟨none, none, by rw [change, known]; rfl⟩
  | some i => exact ⟨environment, i.component, by rw [change, known]; rfl⟩

theorem componentOf?_staged (ms : List ModuleId) (l : Links κ) :
    (ms.foldl stage l).registry.componentOf? m = l.registry.componentOf? m := by
  obtain ⟨⟨environment, change⟩, _⟩ := get?_staged ms l m
  unfold Registry.componentOf?
  rw [change]
  cases l.registry.get? m <;> rfl

theorem linked_staged (l : Links κ) :
    ((l.pending g).foldl stage l).registry.Linked m ↔ l.registry.Linked m ∨ m ∈ l.pending g := by
  obtain ⟨⟨environment, change⟩, unchanged, linked⟩ := get?_staged (l.pending g) l m
  constructor
  · rintro ⟨i, known, held⟩
    by_cases member : m ∈ l.pending g
    · exact .inr member
    · rw [unchanged (.inl member)] at known
      exact .inl ⟨i, known, held⟩
  · rintro (already | member)
    · obtain ⟨i, known, held⟩ := already
      exact ⟨i, (unchanged (.inr ⟨i, known, held⟩)).trans known, held⟩
    · obtain ⟨_, i, known, _⟩ := mem_pending.mp member
      rw [known] at change
      exact ⟨_, change, linked member _ change⟩

theorem grouped_staged (ms : List ModuleId) (grouped : l.registry.Grouped) :
    (ms.foldl stage l).registry.Grouped := by
  constructor
  · intro m c
    rw [componentOf?_staged, component?_staged]
    exact grouped.members m c
  · intro m other c c' held held'
    rw [componentOf?_staged] at held held'
    rw [(reassigned_staged ms l).mutual_iff]
    exact grouped.strong m other c c' held held'

theorem joined_of_link (linkage : l.registry.Linkage) (faithful : g.Faithful l.registry)
    (ran : link l g = .ok l') :
    Joined l.registry (l.pending g) l'.registry ∧ l'.registry.Linkage := by
  obtain ⟨_, bound, binds, rfl⟩ := link_eq_ok ran
  have inside : ∀ m, (l.pending g).contains m = true → m ∈ g.modules := fun m member =>
    (mem_pending.mp (List.contains_iff_mem.mp member)).1
  obtain ⟨distinct, all, strong⟩ := ModuleGraph.components_strong inside
  have fresh : ∀ m, m ∈ (g.components (l.pending g).contains).flatten ↔ m ∈ l.pending g :=
    fun m => (all m).trans List.contains_iff_mem
  have reassigned := reassigned_staged (l.pending g) l
  have ungrouped : ∀ m ∈ l.pending g, l.registry.componentOf? m = none := by
    refine fun m member => Option.eq_none_iff_forall_ne_some.mpr fun c held => ?_
    exact not_mem_pending ((linkage.placed m).mpr ⟨c, held⟩) member
  obtain ⟨grouped, regrouped⟩ := (grouped_staged (l.pending g) linkage.grouped).addComponents
    (g.components (l.pending g).contains) distinct
    (fun m member => (componentOf?_staged _ l).trans (ungrouped m ((fresh m).mp member)))
    (fun m member => by
      obtain ⟨_, i, known, _⟩ := mem_pending.mp ((fresh m).mp member)
      obtain ⟨_, _, change⟩ := reassigned m
      exact ⟨_, by rw [change, known]; rfl⟩)
    (fun c held m member other => by
      have pending := (fresh m).mp (List.mem_flatten_of_mem held member)
      rw [strong c held m member other, mutual_pending linkage faithful pending,
        reassigned.mutual_iff])
  rw [← registry_bindAll binds] at grouped regrouped
  have whole : l.registry.Reassigned
      ((g.components (l.pending g).contains).foldl Registry.addComponent bound.registry) := by
    rw [← registry_bindAll binds] at reassigned
    exact reassigned.trans regrouped.reassigned
  have linked : ∀ m, ((g.components (l.pending g).contains).foldl Registry.addComponent
      bound.registry).Linked m ↔ l.registry.Linked m ∨ m ∈ l.pending g := by
    intro m
    rw [regrouped.linked_iff, registry_bindAll binds]
    exact linked_staged l
  have kept : ∀ m, m ∉ l.pending g → ((g.components (l.pending g).contains).foldl
      Registry.addComponent bound.registry).get? m = l.registry.get? m := by
    intro m apart
    rw [regrouped.kept m fun member => apart ((fresh m).mp member), registry_bindAll binds]
    exact (get?_staged (l.pending g) l m).2.1 (.inl apart)
  have components : ∀ c, bound.registry.component? c = l.registry.component? c := fun c => by
    rw [registry_bindAll binds, component?_staged]
  refine ⟨⟨whole, kept, linked, fun c component known => ?_, fun c component known => ?_, ?_⟩,
    fun m held => ⟨?_, fun target edge => ?_⟩, fun m => ?_, grouped⟩
  · exact regrouped.old c component ((components c).trans known)
  · rcases regrouped.new c component known with known | ⟨free, members⟩
    · exact .inl ((components c).symm.trans known)
    · exact .inr ⟨free, fun m member => (fresh m).mp (members m member)⟩
  · rw [regrouped.entered, registry_bindAll binds, entered_staged]
  · rcases (linked m).mp held with already | member
    · obtain ⟨⟨dependencies, resolved⟩, _⟩ := linkage.closed m already
      exact ⟨dependencies, whole.resolved_iff.mpr resolved⟩
    · obtain ⟨dependencies, resolved⟩ := faithful.resolved m (mem_pending.mp member).1
      exact ⟨dependencies, whole.resolved_iff.mpr resolved⟩
  · have edge := whole.dependsOn_iff.mp edge
    rw [linked]
    rcases (linked m).mp held with already | member
    · exact .inl ((linkage.closed m already).2 target edge)
    · exact linked_or_pending faithful (faithful.closed (mem_pending.mp member).1 edge)
  · by_cases member : m ∈ l.pending g
    · exact ⟨fun _ => regrouped.placed m ((fresh m).mpr member),
        fun _ => (linked m).mpr (.inr member)⟩
    · have same : ∀ r' : Registry κ, r'.get? m = l.registry.get? m →
          r'.componentOf? m = l.registry.componentOf? m := fun r' same => by
        rw [Registry.componentOf?, same, Registry.componentOf?]
      rw [linked, same _ (kept m member), ← linkage.placed]
      simp [member]

end Links
end MixedModules
