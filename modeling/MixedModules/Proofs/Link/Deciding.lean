import MixedModules.Proofs.Graph.BinaryCycle
import MixedModules.Proofs.Link.Resolvability

/-! What decides whether a graph is linked.

When all modules of the graph have their slots, each import is granted or refused, and
binding changes nothing that this depends on. So linking fails for the first import that
is refused, in the order of the modules and of what they declare, and otherwise binds
each import to the slot that its name stands for. -/
namespace MixedModules

variable {κ : Type}

namespace Registry.Reassigned

variable {r r' : Registry κ} {s s' : Store κ}

/-- Environments and components decide nothing about a search but the slots it ends at. -/
theorem search (same : r.Reassigned r')
    (slots : ∀ m name, r'.exportSlot? s' m name = r.exportSlot? s m name) (depth : Nat)
    (m : ModuleId) (name : String) (asked : Asked) :
    r'.search s' depth m name asked = r.search s depth m name asked := by
  induction depth generalizing m name asked with
  | zero => rfl
  | succ depth ih =>
    obtain ⟨environment, component, change⟩ := same m
    unfold Registry.search
    rw [change, slots]
    cases r.get? m with
    | none => rfl
    | some i =>
      have stars : Instance.starTargets { i with environment, component } = i.starTargets := rfl
      have dependency : ∀ specifier, Instance.dependency? { i with environment, component } specifier =
          i.dependency? specifier := fun _ => rfl
      simp only [Option.map_some, stars, dependency, ih]

theorem questions (same : r.Reassigned r') : r'.questions = r.questions := by
  have records : r'.instances.toList.map (·.record) = r.instances.toList.map (·.record) := by
    refine List.ext_getElem? fun n => ?_
    obtain ⟨environment, component, change⟩ := same ⟨n⟩
    have here : ∀ r : Registry κ, r.instances.toList[n]? = r.get? ⟨n⟩ := fun r => by
      simp [Registry.get?]
    rw [List.getElem?_map, List.getElem?_map, here, here, change]
    cases r.get? ⟨n⟩ <;> rfl
  have total : ∀ r : Registry κ, r.questions =
      (r.instances.toList.map (·.record)).length *
        (r.instances.toList.map (·.record)).foldl (fun n record => n + record.exports.length) 1 + 1 := by
    intro r
    simp [Registry.questions, Registry.size, List.foldl_map]
  rw [total, total, records]

theorem resolve (same : r.Reassigned r')
    (slots : ∀ m name, r'.exportSlot? s' m name = r.exportSlot? s m name) (m : ModuleId)
    (name : String) : r'.resolve s' m name = r.resolve s m name := by
  unfold Registry.resolve
  rw [same.questions, same.search slots]

end Registry.Reassigned

/-- Components say nothing about slots. -/
theorem Registry.exportSlot?_addComponents (cs : List (List ModuleId)) (r : Registry κ) (s : Store κ)
    (m : ModuleId) (name : String) :
    (cs.foldl Registry.addComponent r).exportSlot? s m name = r.exportSlot? s m name := by
  obtain ⟨component, change⟩ := Registry.get?_addComponents cs r m
  unfold Registry.exportSlot?
  rw [change]
  cases r.get? m <;> rfl

namespace Links

variable {l l' : Links κ} {g : ModuleGraph} {m origin : ModuleId} {i : Instance κ}
  {decl : ImportDecl} {slot : SlotId} {e : LinkError}

/-- The links of a graph when all modules that are to be linked have their slots. -/
def staged (l : Links κ) (g : ModuleGraph) : Links κ := (l.pending g).foldl stage l

/-- The imports of modules, in the order of the modules and of what they declare. -/
def imports (r : Registry κ) (ms : List ModuleId) : List (ModuleId × ImportDecl) :=
  ms.flatMap fun m => match r.get? m with
    | some i => i.record.imports.map (m, ·)
    | none => []

/-- An import that may be bound, with the slot that its name stands for and the module
that owns the slot. Between binary modules, what is declared on both sides must agree. -/
inductive Grants (l : Links κ) (m : ModuleId) (decl : ImportDecl) :
    (origin : ModuleId) → (slot : SlotId) → Prop where
  | found {i owner : Instance κ} {target origin : ModuleId} {slot : SlotId} {content : Slot}
      (known : l.registry.get? m = some i) (depends : i.dependency? decl.specifier = some target)
      (resolved : l.registry.resolve l.store target decl.name = .found origin slot)
      (owned : l.registry.get? origin = some owner) (there : l.store.slot? slot = some content)
      (named : content.owner = owner.identity)
      (fits : i.kind = .binary → owner.kind = .binary →
        checkLink decl.kind decl.type content.kind content.type = .ok ()) :
      Grants l m decl origin slot

/-- An import that may not be bound, and why. -/
inductive Refuses (l : Links κ) (m : ModuleId) (decl : ImportDecl) : (e : LinkError) → Prop where
  | unresolved {i j : Instance κ} {target : ModuleId} (known : l.registry.get? m = some i)
      (depends : i.dependency? decl.specifier = some target)
      (asked : l.registry.get? target = some j)
      (missing : l.registry.resolve l.store target decl.name = .notFound) :
      Refuses l m decl (.unresolvedExport j.identity decl.name i.identity)
  | ambiguous {i j : Instance κ} {target : ModuleId} (known : l.registry.get? m = some i)
      (depends : i.dependency? decl.specifier = some target)
      (asked : l.registry.get? target = some j)
      (several : l.registry.resolve l.store target decl.name = .ambiguous) :
      Refuses l m decl (.ambiguousExport j.identity decl.name i.identity)
  | mismatched {i owner : Instance κ} {target origin : ModuleId} {slot : SlotId} {content : Slot}
      {reason : Incompatibility} (known : l.registry.get? m = some i)
      (depends : i.dependency? decl.specifier = some target)
      (resolved : l.registry.resolve l.store target decl.name = .found origin slot)
      (owned : l.registry.get? origin = some owner) (there : l.store.slot? slot = some content)
      (named : content.owner = owner.identity) (binary : i.kind = .binary)
      (ownerBinary : owner.kind = .binary)
      (rejected : checkLink decl.kind decl.type content.kind content.type = .error reason) :
      Refuses l m decl (.linkType ⟨i.identity, decl.localName, owner.identity, reason⟩)

/-- An import of a linked module, as it is bound. -/
structure Binds (l : Links κ) (m : ModuleId) (decl : ImportDecl) (b : ImportBinding) : Prop where
  specifier : b.specifier = decl.specifier
  name : b.name = decl.name
  localName : b.localName = decl.localName
  kind : b.kind = decl.kind
  type : b.type = decl.type
  grants : l.Grants m decl b.origin b.target
  mode : ∃ i owner, l.registry.get? m = some i ∧ l.registry.get? b.origin = some owner ∧
    b.originKind = owner.kind ∧ (b.mode = .live ↔ i.kind = owner.kind)

/-- All imports of a module are bound, each under its own name and nothing else. -/
def BindsAll (l : Links κ) (m : ModuleId) (decls : List ImportDecl) (imports : Scope ImportBinding) :
    Prop :=
  List.Forall₂ (fun decl entry => entry.1 = decl.localName ∧ l.Binds m decl entry.2) decls
    imports.entries

/-- Each import is granted or refused, whatever it is. -/
theorem grants_or_refuses (housed : l.Housed) (stocked : l.registry.Stocked)
    (closed : ∀ m, l.registry.Linked m → (∃ dependencies, l.registry.Resolved m dependencies) ∧
      ∀ target, l.registry.DependsOn m target → l.registry.Linked target)
    (linked : l.registry.Linked m) (known : l.registry.get? m = some i)
    (declared : decl ∈ i.record.imports) :
    (∃ origin slot, l.Grants m decl origin slot) ∨ ∃ e, l.Refuses m decl e := by
  have ready := housed.resolvable stocked closed
  have requested := ((ready.wellFormed linked known).imports decl declared).requested
  obtain ⟨target, depends, inside⟩ := ready.closed m i linked known decl.specifier requested
  obtain ⟨j, asked⟩ := ready.registered target inside
  have verdict := Registry.verdict_resolve ready inside decl.name
  cases answer : l.registry.resolve l.store target decl.name with
  | notFound => exact .inr ⟨_, .unresolved known depends asked answer⟩
  | ambiguous => exact .inr ⟨_, .ambiguous known depends asked answer⟩
  | found origin slot =>
    rw [answer] at verdict
    cases verdict with
    | one name reached gives only =>
      obtain ⟨owner, owned, mine⟩ := ready.owner_of_gives (ready.reach inside reached) gives
      obtain ⟨content, there, named⟩ := Option.map_eq_some_iff.mp mine
      by_cases both : i.kind = .binary ∧ owner.kind = .binary
      · cases checked : checkLink decl.kind decl.type content.kind content.type with
        | ok _ => exact .inl ⟨origin, slot, .found known depends answer owned there named fun _ _ => checked⟩
        | error reason =>
          exact .inr ⟨_, .mismatched known depends answer owned there named both.1 both.2 checked⟩
      · exact .inl ⟨origin, slot, .found known depends answer owned there named
          fun one other => absurd ⟨one, other⟩ both⟩

/-- Of a row of imports all are granted, or one is refused after some that are granted. -/
theorem all_or_first {asks : List (ModuleId × ImportDecl)}
    (each : ∀ ask ∈ asks, (∃ origin slot, l.Grants ask.1 ask.2 origin slot) ∨
      ∃ e, l.Refuses ask.1 ask.2 e) :
    (∀ ask ∈ asks, ∃ origin slot, l.Grants ask.1 ask.2 origin slot) ∨
      ∃ before ask after e, asks = before ++ ask :: after ∧
        (∀ ask ∈ before, ∃ origin slot, l.Grants ask.1 ask.2 origin slot) ∧
        l.Refuses ask.1 ask.2 e := by
  induction asks with
  | nil => exact .inl (by simp)
  | cons ask rest ih =>
    rcases each ask List.mem_cons_self with granted | ⟨e, refused⟩
    · rcases ih fun other member => each other (List.mem_cons_of_mem ask member) with
        all | ⟨before, other, after, e, rfl, granted', refused⟩
      · left
        intro other member
        rcases List.mem_cons.mp member with rfl | member
        · exact granted
        · exact all other member
      · refine .inr ⟨ask :: before, other, after, e, rfl, fun one member => ?_, refused⟩
        rcases List.mem_cons.mp member with rfl | member
        · exact granted
        · exact granted' one member
    · exact .inr ⟨[], ask, rest, e, rfl, by simp, refused⟩

/-! ## What binding leaves as it is -/

section Transfer

variable (same : l.registry.Reassigned l'.registry)
  (slots : ∀ m name, l'.registry.exportSlot? l'.store m name = l.registry.exportSlot? l.store m name)
  (keeps : l.store.Keeps l'.store)

include same slots keeps

/-- An import is granted alike where modules have the same exports with the same slots. -/
theorem Grants.transfer (granted : l.Grants m decl origin slot) : l'.Grants m decl origin slot := by
  obtain ⟨known, depends, resolved, owned, there, named, fits⟩ := granted
  obtain ⟨_, _, here⟩ := same m
  obtain ⟨_, _, owner⟩ := same origin
  rw [known] at here
  rw [owned] at owner
  obtain ⟨content, there⟩ := keeps.slots _ _ there
  exact .found here depends ((same.resolve slots ..).trans resolved) owner there named fits

theorem Refuses.transfer (refused : l.Refuses m decl e) : l'.Refuses m decl e := by
  cases refused with
  | @unresolved i j target known depends asked missing =>
    obtain ⟨_, _, here⟩ := same m
    obtain ⟨_, _, next⟩ := same target
    rw [known] at here
    rw [asked] at next
    have refused := Refuses.unresolved here depends next ((same.resolve slots ..).trans missing)
    exact refused
  | @ambiguous i j target known depends asked several =>
    obtain ⟨_, _, here⟩ := same m
    obtain ⟨_, _, next⟩ := same target
    rw [known] at here
    rw [asked] at next
    have refused := Refuses.ambiguous here depends next ((same.resolve slots ..).trans several)
    exact refused
  | @mismatched i owner target origin slot content reason known depends resolved owned there named
      binary ownerBinary rejected =>
    obtain ⟨_, _, here⟩ := same m
    obtain ⟨_, _, owner⟩ := same origin
    rw [known] at here
    rw [owned] at owner
    obtain ⟨content, there⟩ := keeps.slots _ _ there
    have refused := Refuses.mismatched here depends ((same.resolve slots ..).trans resolved) owner
      there named binary ownerBinary rejected
    exact refused

theorem Binds.transfer {b : ImportBinding} (binds : l.Binds m decl b) : l'.Binds m decl b := by
  obtain ⟨i, owner, known, owned, kinds⟩ := binds.mode
  obtain ⟨_, _, here⟩ := same m
  obtain ⟨_, _, owners⟩ := same b.origin
  rw [known] at here
  rw [owned] at owners
  exact { binds with
    grants := binds.grants.transfer same slots keeps
    mode := ⟨_, _, here, owners, kinds⟩ }

end Transfer

/-- What is bound after `l` has the modules of `l` and the slots of their exports. -/
structure Onward (l now : Links κ) : Prop where
  registry : now.registry = l.registry
  keeps : l.store.Keeps now.store
  exports : ∀ e, (now.store.environment? e).map (·.exports) =
    (l.store.environment? e).map (·.exports)

namespace Onward

variable {now next : Links κ}

theorem refl (l : Links κ) : l.Onward l := ⟨rfl, .refl _, fun _ => rfl⟩

theorem trans (one : l.Onward now) (other : now.Onward next) : l.Onward next :=
  ⟨other.registry.trans one.registry, one.keeps.trans other.keeps,
    fun e => (other.exports e).trans (one.exports e)⟩

theorem exportSlot? (onward : l.Onward now) (m : ModuleId) (name : String) :
    now.registry.exportSlot? now.store m name = l.registry.exportSlot? l.store m name := by
  unfold Registry.exportSlot?
  rw [onward.registry]
  cases known : l.registry.get? m with
  | none => rfl
  | some i =>
    cases home : i.environment with
    | none => simp [home]
    | some e =>
      have same := onward.exports e
      simp only [Option.bind_eq_bind, Option.bind_some, home]
      cases here : l.store.environment? e <;> cases there : now.store.environment? e <;>
        simp_all

theorem reassigned (onward : l.Onward now) : l.registry.Reassigned now.registry := by
  intro m
  rw [onward.registry]
  cases l.registry.get? m with
  | none => exact ⟨none, none, rfl⟩
  | some i => exact ⟨i.environment, i.component, rfl⟩

theorem grants (onward : l.Onward now) (granted : l.Grants m decl origin slot) :
    now.Grants m decl origin slot :=
  granted.transfer onward.reassigned onward.exportSlot? onward.keeps

end Onward

/-! ## Binding -/

variable {now : Links κ}

theorem resolveImport_of_refuses (known : l.registry.get? m = some i)
    (refused : l.Refuses m decl e) : resolveImport l i decl = .error e := by
  unfold resolveImport
  cases refused with
  | unresolved known' depends asked missing =>
    cases known.symm.trans known'
    simp only [depends, asked, missing]
    rfl
  | ambiguous known' depends asked several =>
    cases known.symm.trans known'
    simp only [depends, asked, several]
    rfl
  | mismatched known' depends resolved owned there named binary ownerBinary rejected =>
    cases known.symm.trans known'
    simp only [depends, resolved, owned, there, binary, ownerBinary, Option.getD_some, and_self,
      if_true, rejected, named]
    rfl

/-- A granted import is bound, and the importer gets a slot of its own for it. -/
theorem resolveImport_of_grants (known : l.registry.get? m = some i)
    (granted : l.Grants m decl origin slot) : ∃ binding,
      resolveImport l i decl = .ok (binding, { l with store := (l.store.addSlot
        ⟨i.identity, decl.localName, decl.kind, decl.type, .uninitialized⟩).2 }) ∧
      l.Binds m decl binding := by
  obtain ⟨known', depends, resolved, owned, there, named, fits⟩ := id granted
  cases known.symm.trans known'
  rename_i owner target content
  have mode : bindingMode i.kind owner.kind = .live ↔ i.kind = owner.kind := by
    unfold bindingMode
    split <;> simp_all
  refine ⟨⟨decl.specifier, decl.name, decl.localName, decl.kind, decl.type, origin, owner.kind, slot,
    ⟨l.store.slots.size⟩, bindingMode i.kind owner.kind⟩, ?_,
    ⟨rfl, rfl, rfl, rfl, rfl, granted, i, owner, known, owned, rfl, mode⟩⟩
  unfold resolveImport
  simp only [depends, resolved, owned, there, Option.getD_some]
  by_cases both : i.kind = .binary ∧ owner.kind = .binary
  · rw [if_pos both, fits both.1 both.2]
    rfl
  · rw [if_neg both]
    rfl

theorem onward_addSlot (l : Links κ) (slot : Slot) :
    l.Onward { l with store := (l.store.addSlot slot).2 } :=
  ⟨rfl, (Store.grows_addSlot l.store slot).toKeeps, fun _ => rfl⟩

theorem Onward.binds {b : ImportBinding} (onward : l.Onward now) (binds : now.Binds m decl b)
    (granted : ∃ origin slot, l.Grants m decl origin slot) : l.Binds m decl b := by
  obtain ⟨origin, slot, granted⟩ := granted
  obtain ⟨i, owner, known, owned, kinds⟩ := binds.mode
  rw [onward.registry] at known owned
  refine { binds with grants := ?_, mode := ⟨i, owner, known, owned, kinds⟩ }
  -- The name stands for one slot, so it is the one that was granted before.
  have same : b.origin = origin ∧ b.target = slot := by
    have later := binds.grants
    obtain ⟨known₁, depends₁, resolved₁, _⟩ := onward.grants granted
    generalize b.origin = o, b.target = t at later
    obtain ⟨known₂, depends₂, resolved₂, _⟩ := later
    cases known₁.symm.trans known₂
    cases depends₁.symm.trans depends₂
    cases resolved₁.symm.trans resolved₂
    exact ⟨rfl, rfl⟩
  rw [same.1, same.2]
  exact granted

theorem resolveImports_append (first rest : List ImportDecl) (bindings : Scope ImportBinding) :
    resolveImports i (first ++ rest) bindings l = (do
      let (bindings, l) ← resolveImports i first bindings l
      resolveImports i rest bindings l) := by
  induction first generalizing bindings l with
  | nil => rfl
  | cons decl first ih =>
    simp only [List.cons_append, resolveImports, bind_assoc]
    cases resolveImport l i decl with
    | error e => rfl
    | ok result => exact ih _

/-- A new name goes to the end. -/
theorem entries_put {α : Type} {scope : Scope α} {name : String} (fresh : name ∉ scope.names) (a : α) :
    (scope.put name a).entries = scope.entries ++ [(name, a)] := by
  have ends : ∀ entries : List (String × α), name ∉ entries.map (·.1) →
      Scope.putIn name a entries = entries ++ [(name, a)] := by
    intro entries
    induction entries with
    | nil => simp [Scope.putIn]
    | cons entry rest ih =>
      intro apart
      simp only [List.map_cons, List.mem_cons, not_or] at apart
      simp only [Scope.putIn, if_neg (Ne.symm apart.1), ih apart.2, List.cons_append]
  exact ends scope.entries fresh

/-- Where all imports of a row are granted, they are bound one after the other. -/
theorem resolveImports_of_grants {decls : List ImportDecl} {bindings : Scope ImportBinding}
    (known : l.registry.get? m = some i) (onward : l.Onward now)
    (granted : ∀ decl ∈ decls, ∃ origin slot, l.Grants m decl origin slot)
    (distinct : (bindings.names ++ decls.map (·.localName)).Nodup) :
    ∃ bindings' next, resolveImports i decls bindings now = .ok (bindings', next) ∧
      l.Onward next ∧ next.store.environments = now.store.environments ∧
      ∃ more, bindings'.entries = bindings.entries ++ more ∧
        List.Forall₂ (fun decl entry => entry.1 = decl.localName ∧ l.Binds m decl entry.2) decls
          more := by
  induction decls generalizing bindings now with
  | nil => exact ⟨bindings, now, rfl, onward, rfl, [], by simp, .nil⟩
  | cons decl rest ih =>
    obtain ⟨origin, slot, here⟩ := granted decl List.mem_cons_self
    have known' : now.registry.get? m = some i := by rw [onward.registry, known]
    obtain ⟨binding, ran, binds⟩ := resolveImport_of_grants known' (onward.grants here)
    have fresh : decl.localName ∉ bindings.names := fun held =>
      (List.nodup_append.mp distinct).2.2 _ held _ (by simp) rfl
    have names : (bindings.put decl.localName binding).names = bindings.names ++ [decl.localName] := by
      simp [Scope.names, entries_put fresh]
    obtain ⟨bindings', next, ran', onward', same, more, entries, all⟩ := ih
      (onward.trans (onward_addSlot now _))
      (fun other member => granted other (List.mem_cons_of_mem _ member))
      (by rw [names]; simpa using distinct)
    refine ⟨bindings', next, ?_, onward', same, (decl.localName, binding) :: more, ?_,
      .cons ⟨rfl, onward.binds binds ⟨origin, slot, here⟩⟩ all⟩
    · simp only [resolveImports, ran]
      exact ran'
    · rw [entries, entries_put fresh, List.append_assoc]
      rfl

theorem resolveImports_of_refuses {first rest : List ImportDecl} {bindings : Scope ImportBinding}
    (known : l.registry.get? m = some i) (onward : l.Onward now)
    (granted : ∀ decl ∈ first, ∃ origin slot, l.Grants m decl origin slot)
    (refused : l.Refuses m decl e)
    (distinct : (bindings.names ++ first.map (·.localName)).Nodup) :
    resolveImports i (first ++ decl :: rest) bindings now = .error e := by
  obtain ⟨bindings', next, ran, onward', _⟩ :=
    resolveImports_of_grants known onward granted distinct
  have known' : next.registry.get? m = some i := by rw [onward'.registry, known]
  rw [resolveImports_append, ran]
  simp only [resolveImports, bind, Except.bind,
    resolveImport_of_refuses known'
      (refused.transfer onward'.reassigned onward'.exportSlot? onward'.keeps)]

/-- Imports that are set change nothing that is bound later. -/
theorem onward_modifyEnvironment (l : Links κ) (e : EnvironmentId) (imports : Scope ImportBinding) :
    l.Onward { l with
      store := l.store.modifyEnvironment e fun env => { env with imports } } := by
  refine ⟨rfl, { Store.Keeps.refl _ with }, fun e' => ?_⟩
  simp only [Store.environment?_modifyEnvironment]
  split
  · cases l.store.environment? e' <;> rfl
  · rfl

/-- A module whose imports are all granted has them bound, and no other module has its
imports changed. -/
theorem bindModule_of_grants {home : EnvironmentId} (known : l.registry.get? m = some i)
    (environment : i.environment = some home) (onward : l.Onward now)
    (present : ∃ there, now.store.environment? home = some there)
    (distinct : (i.record.imports.map (·.localName)).Nodup)
    (granted : ∀ decl ∈ i.record.imports, ∃ origin slot, l.Grants m decl origin slot) :
    ∃ next, bindModule now m = .ok next ∧ l.Onward next ∧
      (∃ there, next.store.environment? home = some there ∧
        l.BindsAll m i.record.imports there.imports) ∧
      ∀ other, other ≠ home → next.store.environment? other = now.store.environment? other := by
  have fresh : ((Scope.empty : Scope ImportBinding).names ++
      i.record.imports.map (·.localName)).Nodup := by
    simpa [Scope.names, Scope.empty] using distinct
  obtain ⟨imports, next, ran, onward', same, more, entries, all⟩ :=
    resolveImports_of_grants known onward granted fresh
  have reads : ∀ other, next.store.environment? other = now.store.environment? other := fun other => by
    rw [Store.environment?, same, ← Store.environment?]
  have known' : now.registry.get? m = some i := by rw [onward.registry, known]
  obtain ⟨there, present⟩ := present
  refine ⟨_, ?_, onward'.trans (onward_modifyEnvironment next home imports),
    ⟨{ there with imports }, ?_, ?_⟩, fun other apart => ?_⟩
  · unfold bindModule
    simp only [known', environment, ran]
    rfl
  · simp only [Store.environment?_modifyEnvironment, if_pos, reads, present]
    rfl
  · unfold BindsAll
    rw [entries]
    exact all
  · simp only [Store.environment?_modifyEnvironment, if_neg (Ne.symm apart), reads]

theorem bindModule_of_refuses {home : EnvironmentId} {first rest : List ImportDecl}
    (known : l.registry.get? m = some i) (environment : i.environment = some home)
    (onward : l.Onward now) (parts : i.record.imports = first ++ decl :: rest)
    (distinct : (i.record.imports.map (·.localName)).Nodup)
    (granted : ∀ decl ∈ first, ∃ origin slot, l.Grants m decl origin slot)
    (refused : l.Refuses m decl e) : bindModule now m = .error e := by
  have known' : now.registry.get? m = some i := by rw [onward.registry, known]
  have fresh : ((Scope.empty : Scope ImportBinding).names ++ first.map (·.localName)).Nodup := by
    rw [parts, List.map_append] at distinct
    simpa [Scope.names, Scope.empty] using (List.nodup_append.mp distinct).1
  have ran : resolveImports i (first ++ decl :: rest) .empty now = .error e :=
    resolveImports_of_refuses known onward granted refused fresh
  unfold bindModule
  simp only [known', environment, parts, ran]
  rfl

/-- What is needed of modules to bind them: their environments are there and their own,
and their records are checked. -/
structure Bindable (l : Links κ) (ms : List ModuleId) : Prop where
  once : ms.Nodup
  housed : ∀ m ∈ ms, ∃ i e there, l.registry.get? m = some i ∧ i.environment = some e ∧
    l.store.environment? e = some there ∧ (i.record.imports.map (·.localName)).Nodup
  apart : ∀ m m' i i' e, l.registry.get? m = some i → l.registry.get? m' = some i' →
    i.environment = some e → i'.environment = some e → m = m'

theorem Onward.present {home : EnvironmentId} {there : Environment} (onward : l.Onward now)
    (present : l.store.environment? home = some there) :
    ∃ there, now.store.environment? home = some there := by
  have same := onward.exports home
  rw [present] at same
  obtain ⟨there, held, _⟩ := Option.map_eq_some_iff.mp same
  exact ⟨there, held⟩

/-- Modules whose imports are all granted are bound one after the other. -/
theorem bindAll_of_grants {ms : List ModuleId} (bindable : l.Bindable ms) (onward : l.Onward now)
    (granted : ∀ ask ∈ imports l.registry ms, ∃ origin slot, l.Grants ask.1 ask.2 origin slot) :
    ∃ next, ms.foldlM bindModule now = .ok next ∧ l.Onward next ∧
      (∀ m ∈ ms, ∀ i e, l.registry.get? m = some i → i.environment = some e →
        ∃ there, next.store.environment? e = some there ∧
          l.BindsAll m i.record.imports there.imports) ∧
      ∀ e, (∀ m ∈ ms, ∀ i, l.registry.get? m = some i → i.environment ≠ some e) →
        next.store.environment? e = now.store.environment? e := by
  induction ms generalizing now with
  | nil => exact ⟨now, rfl, onward, by simp, fun _ _ => rfl⟩
  | cons m rest ih =>
    obtain ⟨i, home, there, known, environment, present, distinct⟩ :=
      bindable.housed m List.mem_cons_self
    obtain ⟨fresh, once⟩ := List.nodup_cons.mp bindable.once
    have own : ∀ decl ∈ i.record.imports, ∃ origin slot, l.Grants m decl origin slot :=
      fun decl declared => granted (m, decl) (by simp [imports, known, declared])
    obtain ⟨between, ran, onward', ⟨bound, held, binds⟩, others⟩ :=
      bindModule_of_grants known environment onward (onward.present present) distinct own
    obtain ⟨next, ran', onward'', all, untouched⟩ := ih
      ⟨once, fun x member => bindable.housed x (List.mem_cons_of_mem m member), bindable.apart⟩ onward'
      fun ask member => granted ask (by
        unfold imports at member ⊢
        rw [List.flatMap_cons]
        exact List.mem_append_right _ member)
    refine ⟨next, ?_, onward'', fun x member j e known' environment' => ?_, fun e apart => ?_⟩
    · rw [List.foldlM_cons, ran]
      exact ran'
    · rcases List.mem_cons.mp member with rfl | member
      · cases known.symm.trans known'
        cases environment.symm.trans environment'
        refine ⟨bound, (untouched home fun y later k known'' environment'' => ?_).trans held, binds⟩
        exact fresh (bindable.apart x y i k home known known'' environment environment'' ▸ later)
      · exact all x member j e known' environment'
    · rw [untouched e fun x member => apart x (List.mem_cons_of_mem m member)]
      exact others e fun same => apart m List.mem_cons_self i known (same ▸ environment)

/-- Binding ends at the first import that is refused. -/
theorem bindAll_of_refuses {ms : List ModuleId} {before after : List (ModuleId × ImportDecl)}
    (bindable : l.Bindable ms) (onward : l.Onward now)
    (parts : imports l.registry ms = before ++ (m, decl) :: after)
    (granted : ∀ ask ∈ before, ∃ origin slot, l.Grants ask.1 ask.2 origin slot)
    (refused : l.Refuses m decl e) : ms.foldlM bindModule now = .error e := by
  induction ms generalizing now before with
  | nil =>
    cases before <;> cases parts
  | cons head rest ih =>
    obtain ⟨i, home, there, known, environment, present, distinct⟩ :=
      bindable.housed head List.mem_cons_self
    have whole : imports l.registry (head :: rest) =
        i.record.imports.map (head, ·) ++ imports l.registry rest := by
      simp [imports, known]
    rw [whole] at parts
    rw [List.foldlM_cons]
    -- Either all imports of this module are granted, or the import is one of them.
    have passes : ∀ more, before = i.record.imports.map (head, ·) ++ more →
        imports l.registry rest = more ++ (m, decl) :: after →
        (bindModule now head >>= fun between => rest.foldlM bindModule between) = .error e := by
      rintro more rfl later
      obtain ⟨between, ran, onward', _⟩ := bindModule_of_grants known environment onward
        (onward.present present) distinct fun decl declared =>
          granted (head, decl) (List.mem_append_left _ (List.mem_map_of_mem declared))
      rw [ran]
      exact ih ⟨(List.nodup_cons.mp bindable.once).2,
        fun x member => bindable.housed x (List.mem_cons_of_mem head member), bindable.apart⟩ onward'
        later fun ask member => granted ask (List.mem_append_right _ member)
    rcases List.append_eq_append_iff.mp parts with ⟨more, same, later⟩ | ⟨more, own, later⟩
    · exact passes more same later
    cases more with
    | nil =>
      rw [List.append_nil] at own
      exact passes [] (by rw [own, List.append_nil]) later.symm
    | cons ask more =>
      obtain ⟨rfl, _⟩ := List.cons.inj later
      obtain ⟨first, others, split, firsts, others'⟩ := List.map_eq_append_iff.mp own
      obtain ⟨decl', rest', rfl, here, _⟩ := List.map_eq_cons_iff.mp others'
      cases here
      have among : ∀ decl ∈ first, ∃ origin slot, l.Grants m decl origin slot :=
        fun decl declared => granted (m, decl) (firsts ▸ List.mem_map_of_mem declared)
      rw [bindModule_of_refuses known environment onward split distinct among refused]
      rfl

/-! ## The whole graph -/

theorem mem_imports {r : Registry κ} {ms : List ModuleId} {ask : ModuleId × ImportDecl}
    (member : ask ∈ imports r ms) :
    ask.1 ∈ ms ∧ ∃ i, r.get? ask.1 = some i ∧ ask.2 ∈ i.record.imports := by
  obtain ⟨m, held, inside⟩ := List.mem_flatMap.mp member
  cases known : r.get? m with
  | none => simp [known] at inside
  | some i =>
    simp only [known] at inside
    obtain ⟨decl, declared, rfl⟩ := List.mem_map.mp inside
    exact ⟨held, i, known, declared⟩

theorem imports_congr {r r' : Registry κ} (same : r.Reassigned r') (ms : List ModuleId) :
    imports r' ms = imports r ms := by
  unfold imports
  refine List.flatMap_congr fun m _ => ?_
  obtain ⟨_, _, change⟩ := same m
  rw [change]
  cases r.get? m <;> rfl

/-- What linking a graph completes. -/
structure Completes (l : Links κ) (g : ModuleGraph) (l' : Links κ) : Prop where
  /-- Every module of the graph has an environment and a component. -/
  linked : ∀ m ∈ g.modules, ∃ i e c there, l'.registry.get? m = some i ∧
    i.environment = some e ∧ l'.store.environment? e = some there ∧ i.component = some c
  /-- A module that was not linked before has its imports bound as they are declared, to
  the slots that their names stand for. -/
  bound : ∀ m ∈ l.pending g, ∀ i e there, l'.registry.get? m = some i → i.environment = some e →
    l'.store.environment? e = some there → l'.BindsAll m i.record.imports there.imports
  /-- All others are as they were, with their environments and components. -/
  modules : ∀ m, m ∉ l.pending g → l'.registry.get? m = l.registry.get? m
  environments : ∀ m i e, m ∉ l.pending g → l.registry.get? m = some i → i.environment = some e →
    l'.store.environment? e = l.store.environment? e
  components : ∀ c component, l.registry.component? c = some component →
    l'.registry.component? c = some component

section Whole

variable (housed : l.Housed) (stocked : l.registry.Stocked) (linkage : l.registry.Linkage)
  (faithful : g.Faithful l.registry)

include housed stocked linkage faithful

omit linkage in
theorem bindable_staged : (l.staged g).Bindable (l.pending g) := by
  obtain ⟨staged, _, fits, _⟩ := housed_staged (l.pending g) housed
    (fun x i known => Record.wellFormed_of_validate (stocked.checked x i known)) (Nat.le_refl _)
  refine ⟨faithful.drawn.distinct.filter _, fun m member => ?_, staged.apart⟩
  obtain ⟨_, i, known, _⟩ := mem_pending.mp member
  obtain ⟨⟨environment, change⟩, _, linked⟩ := get?_staged (l.pending g) l m
  rw [known] at change
  obtain ⟨e, home⟩ := Option.isSome_iff_exists.mp (linked member _ change)
  obtain ⟨there, present, _⟩ := staged.present m _ e change home
  exact ⟨_, e, there, change, home, present, (fits m _ change).importsDistinct⟩

/-- Each import of a module that is to be linked is granted or refused. -/
theorem each_import : ∀ ask ∈ imports (l.staged g).registry (l.pending g),
    (∃ origin slot, (l.staged g).Grants ask.1 ask.2 origin slot) ∨
      ∃ e, (l.staged g).Refuses ask.1 ask.2 e := by
  obtain ⟨staged, _, _, _⟩ := housed_staged (l.pending g) housed
    (fun x i known => Record.wellFormed_of_validate (stocked.checked x i known)) (Nat.le_refl _)
  have stocked' := (reassigned_staged (l.pending g) l).stocked stocked
  intro ask member
  obtain ⟨pending, i, known, declared⟩ := mem_imports member
  exact grants_or_refuses staged stocked' (fun _ => closed_staged linkage faithful)
    ((linked_staged l).mpr (.inr pending)) known declared

/-- Where all imports are granted the graph is linked. -/
theorem link_of_grants (acyclic : g.binaryCycle? = none)
    (granted : ∀ ask ∈ imports (l.staged g).registry (l.pending g),
      ∃ origin slot, (l.staged g).Grants ask.1 ask.2 origin slot) :
    ∃ l', link l g = .ok l' ∧ l.Completes g l' := by
  obtain ⟨bound, ran, onward, all, _⟩ :=
    bindAll_of_grants (bindable_staged housed stocked faithful) (.refl _) granted
  have whole : link l g = .ok { bound with registry :=
      (g.components (l.pending g).contains).foldl Registry.addComponent bound.registry } := by
    unfold link
    simp only [acyclic]
    change ((l.pending g).foldlM bindModule (l.staged g) >>= _) = _
    rw [ran]
    rfl
  refine ⟨_, whole, ?_⟩
  obtain ⟨joined, linkage'⟩ := joined_of_link linkage faithful whole
  obtain ⟨housed', extends_, _⟩ := housed_of_link housed stocked whole
  have regrouped := Registry.get?_addComponents (g.components (l.pending g).contains) bound.registry
  have homes : ∀ m i e, ((g.components (l.pending g).contains).foldl Registry.addComponent
      bound.registry).get? m = some i → i.environment = some e → ∃ j,
        (l.staged g).registry.get? m = some j ∧ j.environment = some e ∧ j.record = i.record := by
    intro m i e known environment
    obtain ⟨component, change⟩ := regrouped m
    rw [known, onward.registry] at change
    obtain ⟨j, before, rfl⟩ := Option.map_eq_some_iff.mp change.symm
    exact ⟨j, before, environment, rfl⟩
  have reassigned : (l.staged g).registry.Reassigned ((g.components (l.pending g).contains).foldl
      Registry.addComponent bound.registry) := by
    intro m
    obtain ⟨component, change⟩ := regrouped m
    rw [change, onward.registry]
    cases (l.staged g).registry.get? m with
    | none => exact ⟨none, none, rfl⟩
    | some i => exact ⟨i.environment, component, rfl⟩
  have slots : ∀ m name, ((g.components (l.pending g).contains).foldl Registry.addComponent
      bound.registry).exportSlot? bound.store m name =
        (l.staged g).registry.exportSlot? (l.staged g).store m name := fun m name =>
    (Registry.exportSlot?_addComponents ..).trans (onward.exportSlot? m name)
  refine ⟨fun m member => ?_, fun m pending i e there known environment present => ?_, joined.kept,
    fun m i e settled known environment => ?_, joined.old⟩
  · have held := (joined.linked m).mpr (linked_or_pending faithful member)
    obtain ⟨c, place⟩ := (linkage'.placed m).mp held
    obtain ⟨i, known, linked⟩ := held
    obtain ⟨e, environment⟩ := Option.isSome_iff_exists.mp linked
    obtain ⟨there, present, _⟩ := housed'.present m i e known environment
    refine ⟨i, e, c, there, known, environment, present, ?_⟩
    simpa [Registry.componentOf?, known] using place
  · obtain ⟨j, before, environment', record⟩ := homes m i e known environment
    obtain ⟨there', present', binds⟩ := all m pending j e before environment'
    cases present.symm.trans present'
    rw [← record]
    refine binds.imp fun decl entry own => ⟨own.1, own.2.transfer reassigned slots ?_⟩
    exact onward.keeps
  · have inside := housed.within ⟨m, i, known, environment, rfl⟩
    exact extends_.old e inside

omit linkage in
/-- Where an import is refused the graph is not linked, and the first one tells why. -/
theorem link_of_refuses {e : LinkError} {before after : List (ModuleId × ImportDecl)}
    {ask : ModuleId × ImportDecl} (acyclic : g.binaryCycle? = none)
    (parts : imports (l.staged g).registry (l.pending g) = before ++ ask :: after)
    (granted : ∀ ask ∈ before, ∃ origin slot, (l.staged g).Grants ask.1 ask.2 origin slot)
    (refused : (l.staged g).Refuses ask.1 ask.2 e) : link l g = .error e := by
  have fails := bindAll_of_refuses (bindable_staged housed stocked faithful) (.refl _) parts granted
    refused
  unfold link
  simp only [acyclic]
  change ((l.pending g).foldlM bindModule (l.staged g) >>= _) = _
  rw [fails]
  rfl

end Whole

theorem link_of_cycle {cycle : List ModuleId} (found : g.binaryCycle? = some cycle) :
    link l g = .error (.binaryCycle (cycle.map g.identity)) := by
  unfold link
  simp only [found]
  rfl

/-- How linking a graph ends. -/
inductive Decision (l : Links κ) (g : ModuleGraph) : Except LinkError (Links κ) → Prop where
  | cyclic {cycle : List ModuleId} (closed : g.BinaryCycle cycle) :
      Decision l g (.error (.binaryCycle (cycle.map g.identity)))
  | refused {before after : List (ModuleId × ImportDecl)} {ask : ModuleId × ImportDecl} {e : LinkError}
      (acyclic : ∀ cycle, ¬ g.BinaryCycle cycle)
      (parts : imports l.registry (l.pending g) = before ++ ask :: after)
      (granted : ∀ ask ∈ before, ∃ origin slot, (l.staged g).Grants ask.1 ask.2 origin slot)
      (refused : (l.staged g).Refuses ask.1 ask.2 e) : Decision l g (.error e)
  | granted {l' : Links κ} (acyclic : ∀ cycle, ¬ g.BinaryCycle cycle)
      (granted : ∀ ask ∈ imports l.registry (l.pending g),
        ∃ origin slot, (l.staged g).Grants ask.1 ask.2 origin slot)
      (completes : l.Completes g l') : Decision l g (.ok l')

/-- An error for an import is never that of a cycle. -/
theorem Refuses.not_cyclic {identities : List String}
    (refused : l.Refuses m decl (.binaryCycle identities)) : False := by
  cases refused

section Deciding

variable (housed : l.Housed) (stocked : l.registry.Stocked) (linkage : l.registry.Linkage)
  (faithful : g.Faithful l.registry)

include housed stocked linkage faithful

theorem decision_link : l.Decision g (link l g) := by
  have same := imports_congr (reassigned_staged (l.pending g) l) (l.pending g)
  cases found : g.binaryCycle? with
  | some cycle =>
    rw [link_of_cycle found]
    exact .cyclic (ModuleGraph.binaryCycle_of_found found)
  | none =>
    have acyclic := ModuleGraph.no_binaryCycle found
    rcases all_or_first (each_import housed stocked linkage faithful) with
      granted | ⟨before, ask, after, e, parts, granted, refused⟩
    · obtain ⟨l', ran, completes⟩ := link_of_grants housed stocked linkage faithful found granted
      rw [ran]
      exact .granted acyclic (fun ask member => granted ask (same ▸ member)) completes
    · rw [link_of_refuses housed stocked faithful found parts granted refused]
      exact .refused acyclic (same.symm.trans parts) granted refused

theorem link_eq_cyclic_iff : (∃ identities, link l g = .error (.binaryCycle identities)) ↔
    ∃ cycle, g.BinaryCycle cycle := by
  constructor
  · rintro ⟨identities, ran⟩
    have decision := decision_link housed stocked linkage faithful
    rw [ran] at decision
    cases decision with
    | cyclic closed => exact ⟨_, closed⟩
    | refused _ _ _ refused => exact refused.not_cyclic.elim
  · rintro ⟨cycle, closed⟩
    cases found : g.binaryCycle? with
    | some cycle => exact ⟨_, link_of_cycle found⟩
    | none => exact absurd closed (ModuleGraph.no_binaryCycle found cycle)

theorem link_eq_error_iff (acyclic : ∀ cycle, ¬ g.BinaryCycle cycle) (e : LinkError) :
    link l g = .error e ↔ ∃ before ask after,
      imports l.registry (l.pending g) = before ++ ask :: after ∧
      (∀ ask ∈ before, ∃ origin slot, (l.staged g).Grants ask.1 ask.2 origin slot) ∧
      (l.staged g).Refuses ask.1 ask.2 e := by
  constructor
  · intro ran
    have decision := decision_link housed stocked linkage faithful
    rw [ran] at decision
    cases decision with
    | cyclic closed => exact absurd closed (acyclic _)
    | refused _ parts granted refused => exact ⟨_, _, _, parts, granted, refused⟩
  · rintro ⟨before, ask, after, parts, granted, refused⟩
    have missed : g.binaryCycle? = none := Option.eq_none_iff_forall_ne_some.mpr fun cycle found =>
      acyclic cycle (ModuleGraph.binaryCycle_of_found found)
    have same := imports_congr (reassigned_staged (l.pending g) l) (l.pending g)
    exact link_of_refuses housed stocked faithful missed (same.trans parts) granted refused

theorem link_eq_ok_iff : (∃ l', link l g = .ok l') ↔ (∀ cycle, ¬ g.BinaryCycle cycle) ∧
    ∀ ask ∈ imports l.registry (l.pending g),
      ∃ origin slot, (l.staged g).Grants ask.1 ask.2 origin slot := by
  constructor
  · rintro ⟨l', ran⟩
    have decision := decision_link housed stocked linkage faithful
    rw [ran] at decision
    cases decision with
    | granted acyclic granted => exact ⟨acyclic, granted⟩
  · rintro ⟨acyclic, granted⟩
    have missed : g.binaryCycle? = none := Option.eq_none_iff_forall_ne_some.mpr fun cycle found =>
      acyclic cycle (ModuleGraph.binaryCycle_of_found found)
    have same := imports_congr (reassigned_staged (l.pending g) l) (l.pending g)
    obtain ⟨l', ran, _⟩ := link_of_grants housed stocked linkage faithful missed
      fun ask member => granted ask (same ▸ member)
    exact ⟨l', ran⟩

end Deciding

end Links
end MixedModules
