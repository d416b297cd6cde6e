import MixedModules.Graph.BinaryCycle
import MixedModules.Graph.Components
import MixedModules.Link.Exports
import MixedModules.Link.Slots
import MixedModules.Store.Conformance

/-! Linking a graph.

Every module of the graph that is not linked yet gets its slots. Then its imports
are resolved to the slots that provide them, and a binary module's imports from
binary modules are checked against the declared exports. No code runs and no slot is
read. A failure gives nothing but its reason, so nothing is linked by halves. -/
namespace MixedModules

/-- What linking works on. -/
structure Links (κ : Type) where
  registry : Registry κ
  store : Store κ

namespace Links

variable {κ : Type}

/-- Gives a module its environment, unless it has one. -/
def stage (l : Links κ) (m : ModuleId) : Links κ :=
  match l.registry.get? m with
  | none => l
  | some i =>
    if i.isLinked then l
    else
      let (e, store) := l.store.allocate i.identity i.record
      ⟨l.registry.modify m fun i => { i with environment := some e }, store⟩

/-- The modules of a graph that are registered and not linked. -/
def pending (l : Links κ) (g : ModuleGraph) : List ModuleId :=
  g.modules.filter fun m => (l.registry.get? m).any fun i => !i.isLinked

/-- How an import of one kind of module sees a slot of another. -/
def bindingMode (importer origin : ModuleKind) : BindingMode :=
  if importer = origin then .live else .snapshot

/-- Resolves an import of `importer`, and makes the importer's own slot for it. -/
def resolveImport (l : Links κ) (importer : Instance κ) (decl : ImportDecl) :
    Except LinkError (ImportBinding × Links κ) := do
  let unresolved (identity : String) : LinkError :=
    .unresolvedExport identity decl.name importer.identity
  let some target := importer.dependency? decl.specifier
    | throw (unresolved decl.specifier)
  let identity := ((l.registry.get? target).map (·.identity)).getD decl.specifier
  match l.registry.resolve l.store target decl.name with
  | .notFound => throw (unresolved identity)
  | .ambiguous => throw (.ambiguousExport identity decl.name importer.identity)
  | .found origin slotId =>
    let slot := (l.store.slot? slotId).getD default
    let some owner := l.registry.get? origin
      | throw (unresolved slot.owner)
    if importer.kind = .binary ∧ owner.kind = .binary then
      match checkLink decl.kind decl.type slot.kind slot.type with
      | .ok _ => pure ()
      | .error reason =>
        throw (.linkType ⟨importer.identity, decl.localName, slot.owner, reason⟩)
    let (own, store) := l.store.addSlot
      ⟨importer.identity, decl.localName, decl.kind, decl.type, .uninitialized⟩
    return ({
      specifier := decl.specifier
      name := decl.name
      localName := decl.localName
      kind := decl.kind
      type := decl.type
      origin := origin
      originKind := owner.kind
      target := slotId
      own := own
      mode := bindingMode importer.kind owner.kind }, { l with store })

/-- Resolves imports in order, up to the first failure. -/
def resolveImports (importer : Instance κ) :
    List ImportDecl → Scope ImportBinding → Links κ →
      Except LinkError (Scope ImportBinding × Links κ)
  | [], bindings, l => .ok (bindings, l)
  | decl :: rest, bindings, l => do
    let (binding, l) ← l.resolveImport importer decl
    resolveImports importer rest (bindings.put decl.localName binding) l

/-- Resolves all imports of a module and puts them into its environment. -/
def bindModule (l : Links κ) (m : ModuleId) : Except LinkError (Links κ) := do
  let some i := l.registry.get? m | return l
  let some e := i.environment | return l
  let (imports, l) ← resolveImports i i.record.imports .empty l
  return { l with store := l.store.modifyEnvironment e fun env => { env with imports } }

/-- Links the modules of a graph that are not linked yet. -/
def link (l : Links κ) (g : ModuleGraph) : Except LinkError (Links κ) := do
  match g.binaryCycle? with
  | some cycle => throw (.binaryCycle (cycle.map g.identity))
  | none =>
    let pending := l.pending g
    let staged := pending.foldl stage l
    let bound ← pending.foldlM bindModule staged
    let components := g.components pending.contains
    return { bound with registry := components.foldl Registry.addComponent bound.registry }

end Links
end MixedModules
