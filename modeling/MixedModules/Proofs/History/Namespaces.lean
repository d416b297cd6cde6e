import MixedModules.Proofs.History.Direct
import MixedModules.Proofs.History.Identity

/-! Namespaces and imports agree.

A namespace is made of the modules that are linked when it is asked for, an import was bound
while modules were being linked. Both lead to the slot that the name resolves to, since a
module that is linked keeps its dependencies and its slots. -/
namespace MixedModules

variable {κ σ ℓ : Type}

namespace Site

/-- What the namespaces of linked modules show. -/
structure Exposes (site : Site κ σ ℓ) : Prop where
  /-- No name comes twice. -/
  once : ∀ m, site.registry.Linked m →
    ((site.engine.namespaceOf site.world.store m).slots.map (·.1)).Nodup
  /-- A name is there if it resolves to a slot, and then it stands for this slot. -/
  resolved : ∀ m, site.registry.Linked m → ∀ name slot,
    (name, slot) ∈ (site.engine.namespaceOf site.world.store m).slots ↔
      ∃ owner, site.registry.resolve site.world.store m name = .found owner slot
  /-- A default export is one of the module's own. -/
  own : ∀ m i, site.registry.Linked m → site.registry.get? m = some i → ∀ slot,
    (defaultName, slot) ∈ (site.engine.namespaceOf site.world.store m).slots →
      ∃ decl ∈ i.record.exports, decl.name = defaultName
  /-- What a linked module imports is bound to the slot for which the name stands in the
  namespace of the module that it asks. -/
  imported : ∀ m i e, site.registry.get? m = some i → i.environment = some e →
    ∃ environment, site.world.store.environment? e = some environment ∧
      ∀ decl ∈ i.record.imports, ∃ target b, i.dependency? decl.specifier = some target ∧
        environment.imports.get? decl.localName = some b ∧ b.Declared decl ∧
          (decl.name, b.target) ∈ (site.engine.namespaceOf site.world.store target).slots

variable {setup : Setup κ σ ℓ} {site : Site κ σ ℓ}

/-- The name of an import resolves to the slot that it is bound to. -/
theorem resolve_of_sources {l : Links κ} {i : Instance κ} {b : ImportBinding} {target : ModuleId}
    (sources : l.Sources i b) (ready : l.registry.Resolvable l.store l.registry.Linked)
    (depends : i.dependency? b.specifier = some target) :
    ∃ owner, l.registry.resolve l.store target b.name = .found owner b.target := by
  obtain ⟨_, same, linked, only⟩ := sources.leads
  cases depends.symm.trans same
  obtain ⟨_, name, same, reaches, gives⟩ := sources.origin
  cases depends.symm.trans same
  exact ((Registry.verdict_resolve ready linked b.name).eq_found_iff b.target).mpr
    ⟨⟨_, reaches, gives⟩, fun q path other gives => only q other path gives⟩

/-- In every history, the namespace of a linked module shows exactly the names that resolve to
a slot, and those that are imported from it in the slots that their importers read. -/
theorem namespaces_exposed (setup : Setup κ σ ℓ) (memo : σ) (source : ℓ)
    (calls : List (Call κ σ ℓ)) : ((start memo source).run setup calls).Exposes := by
  have orderly := Orderly.of_run setup memo source calls
  have supplies := supplies_of_run setup memo source calls
  have wired := wired_of_run setup memo source calls
  generalize (start memo source).run setup calls = site at orderly supplies wired
  have ready := orderly.resolvable
  refine ⟨fun m _ => site.registry.nodup_namespaceSlots site.world.store m,
    fun m linked name slot => Registry.mem_namespaceSlots ready linked,
    fun m i linked known slot shown => ?_, fun m i e known home => ?_⟩
  · obtain ⟨owner, found⟩ := (Registry.mem_namespaceSlots ready linked).mp shown
    obtain ⟨_, known', declares⟩ := Registry.declares_default ready linked found
    cases known.symm.trans known'
    exact declares
  · obtain ⟨environment, present, _⟩ := orderly.housed.present m i e known home
    refine ⟨environment, present, fun decl declared => ?_⟩
    have declares := supplies m i e environment ⟨known, home, present⟩
    have linked := Registry.linked_of_home known home
    obtain ⟨b, member, bound⟩ := declares.bound declared
    have sources := wired.sources m i e environment ⟨known, home, present⟩ b member
    obtain ⟨target, depends, _⟩ := sources.leads
    have found := resolve_of_sources sources ready depends
    have inside := (orderly.linkage.closed m linked).2 target
      (Registry.dependsOn_of_dependency? known depends)
    refine ⟨target, b, bound.specifier ▸ depends, ?_, bound, ?_⟩
    · rw [← bound.localName]
      exact declares.get? (ready.wellFormed linked known) member
    · rw [← bound.name]
      exact (Registry.mem_namespaceSlots ready inside).mpr found

end Site
end MixedModules
