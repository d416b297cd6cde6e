import MixedModules.Proofs.Link.ExportReachability
import MixedModules.Proofs.Link.Housing

/-! Names are asked for only where they can be resolved.

The modules that have their environments make up a closed set, each with all of its
slots, both while a graph is linked and afterwards. Linking gives slots to all modules
of the graph before it asks for the first name. -/
namespace MixedModules

variable {κ : Type}

/-- A module that has its dependencies has one for each specifier it asks for. -/
theorem Registry.Stocked.dependency? {r : Registry κ} {m : ModuleId} {i : Instance κ}
    {dependencies : Dependencies} {specifier : String} (stocked : r.Stocked)
    (known : r.get? m = some i) (resolved : i.dependencies = some dependencies)
    (requested : specifier ∈ i.record.requested) :
    ∃ target, i.dependency? specifier = some target ∧ r.DependsOn m target := by
  obtain ⟨names, _⟩ := stocked.resolved m i dependencies known resolved
  rw [← names] at requested
  obtain ⟨d, member, rfl⟩ := List.mem_map.mp requested
  have found : (dependencies.find? fun other => other.1 = d.1).isSome :=
    List.find?_isSome.mpr ⟨d, member, by simp⟩
  obtain ⟨other, first⟩ := Option.isSome_iff_exists.mp found
  refine ⟨other.2, ?_, i, known, ?_⟩
  · simp [Instance.dependency?, resolved, first]
  · simp only [Instance.targets, resolved, Option.getD_some]
    exact List.mem_map_of_mem (List.mem_of_find?_eq_some first)

namespace Links

variable {l l' : Links κ} {g : ModuleGraph} {m : ModuleId} {i : Instance κ}

/-- A module that is housed owns the slots of the exports that are its own. -/
theorem Housed.exportSlot? (housed : l.Housed) (known : l.registry.get? m = some i)
    (linked : i.isLinked = true) {decl : ExportDecl κ} (declared : decl ∈ i.record.exports)
    (own : ∀ specifier inner, decl.source ≠ .indirect specifier inner) :
    ∃ slot, l.registry.exportSlot? l.store m decl.name = some slot ∧
      (l.store.slot? slot).map (·.owner) = some i.identity := by
  obtain ⟨e, environment⟩ := Option.isSome_iff_exists.mp linked
  obtain ⟨there, present, mine⟩ := housed.present m i e known environment
  have houses := housed.sound.houses e i.record there ⟨m, i, known, environment, rfl⟩ present
  obtain ⟨slot, held⟩ := houses.given decl declared own
  obtain ⟨_, _, _, made, inStore, owner, _⟩ := houses.exports decl.name slot held
  refine ⟨slot, ?_, ?_⟩
  · simp [Registry.exportSlot?, known, environment, present, held]
  · rw [inStore, Option.map_some, owner, mine]

/-- Where linked modules have their dependencies, and these are linked, the names of
linked modules can be resolved. -/
theorem Housed.resolvable (housed : l.Housed) (stocked : l.registry.Stocked)
    (closed : ∀ m, l.registry.Linked m → (∃ dependencies, l.registry.Resolved m dependencies) ∧
      ∀ target, l.registry.DependsOn m target → l.registry.Linked target) :
    l.registry.Resolvable l.store l.registry.Linked where
  registered m linked := by
    obtain ⟨i, known, _⟩ := linked
    exact ⟨i, known⟩
  checked m i _ known := stocked.checked m i known
  closed m i linked known specifier requested := by
    obtain ⟨⟨dependencies, j, known', resolved⟩, targets⟩ := closed m linked
    cases known.symm.trans known'
    obtain ⟨target, found, depends⟩ := stocked.dependency? known resolved requested
    exact ⟨target, found, targets target depends⟩
  slots m i linked known decl declared own := by
    obtain ⟨j, known', linked⟩ := linked
    cases known.symm.trans known'
    exact housed.exportSlot? known linked declared own

/-- New slots leave modules housed as they are. -/
theorem Housed.furnished {s : Store κ} (housed : l.Housed) (furnished : l.store.Furnished s) :
    Housed ⟨l.registry, s⟩ := by
  refine ⟨housed.sound.furnished furnished, housed.apart, fun m i e known environment => ?_⟩
  obtain ⟨there, present, mine⟩ := housed.present m i e known environment
  refine ⟨there, ?_, mine⟩
  rwa [Store.environment?, furnished.environments, ← Store.environment?]

/-- While a graph is linked, what its modules depend on has slots as they have. -/
theorem closed_staged (linkage : l.registry.Linkage) (faithful : g.Faithful l.registry)
    (linked : ((l.pending g).foldl stage l).registry.Linked m) :
    (∃ dependencies, ((l.pending g).foldl stage l).registry.Resolved m dependencies) ∧
      ∀ target, ((l.pending g).foldl stage l).registry.DependsOn m target →
        ((l.pending g).foldl stage l).registry.Linked target := by
  have same := reassigned_staged (l.pending g) l
  simp only [same.resolved_iff, same.dependsOn_iff, linked_staged] at linked ⊢
  rcases linked with before | member
  · obtain ⟨resolved, targets⟩ := linkage.closed m before
    exact ⟨resolved, fun target depends => .inl (targets target depends)⟩
  · have inside := (mem_pending.mp member).1
    exact ⟨faithful.resolved m inside,
      fun _ depends => linked_or_pending faithful (faithful.closed inside depends)⟩

/-- Each time that linking asks what an import stands for, the names of all modules with
an environment can be resolved. Here `before` are the modules whose imports were bound
already, and `first` are the imports of the module in turn that were. -/
theorem resolvable_linking {between now : Links κ} {before after : List ModuleId}
    {first : List ImportDecl} {bindings : Scope ImportBinding} (housed : l.Housed)
    (stocked : l.registry.Stocked) (linkage : l.registry.Linkage) (faithful : g.Faithful l.registry)
    (turn : l.pending g = before ++ m :: after)
    (bound : before.foldlM bindModule ((l.pending g).foldl stage l) = .ok between)
    (known : between.registry.get? m = some i) (among : ∀ decl ∈ first, decl ∈ i.record.imports)
    (resolved : resolveImports i first .empty between = .ok (bindings, now)) :
    now.registry.Resolvable now.store now.registry.Linked := by
  obtain ⟨staged, _, fits, fresh⟩ := housed_staged (l.pending g) housed
    (fun x i known => Record.wellFormed_of_validate (stocked.checked x i known)) (Nat.le_refl _)
  obtain ⟨here, _⟩ := housed_bindAll staged fits (fun x member i e known environment => by
    apply (fresh x i e known environment).resolve_left
    intro old
    have pending : x ∈ l.pending g := turn ▸ List.mem_append_left _ member
    exact not_mem_pending (Registry.linked_of_home old environment) pending) bound
  have sameBetween := registry_bindAll bound
  have sameNow := (registry_resolveImports resolved).trans sameBetween
  obtain ⟨furnished, _⟩ := bound_resolveImports (fits m i (sameBetween ▸ known)) among
    (by simp [Scope.values, Scope.empty]) resolved
  have housedNow : now.Housed := by
    have furnishedNow := here.furnished furnished
    rwa [sameBetween, ← sameNow] at furnishedNow
  refine housedNow.resolvable ?_ ?_
  · rw [sameNow]
    exact (reassigned_staged (l.pending g) l).stocked stocked
  · intro x
    rw [sameNow]
    exact closed_staged linkage faithful

end Links
end MixedModules
