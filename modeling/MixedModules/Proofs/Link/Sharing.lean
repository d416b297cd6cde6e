import MixedModules.Proofs.Link.Deciding

/-! Which exports share a slot.

Exports of a script module that stand for the same own binding have one slot between
them. Any other two have slots of their own, whenever and beside whatever their modules
were linked. So whether a name is ambiguous can be told from what modules declare. -/
namespace MixedModules

variable {κ : Type}

/-- The binding of its module that an export stands for. Exports of a script module may
share an own binding of it. -/
def ExportDecl.binding (decl : ExportDecl κ) (kind : ModuleKind) : String :=
  match decl.source, kind with
  | .own name, .script => name
  | _, _ => decl.name

/-- The slots that exports are given: those of own bindings in a script module, and their
own in a binary one. -/
def Bindings.given (bindings : Bindings) : ModuleKind → Scope SlotId
  | .script => bindings.locals
  | .binary => bindings.exports

namespace Store

variable {s s' : Store κ} {scope : Scope SlotId} {record : Record κ} (identity : String)

/-- Names have slots of their own. -/
structure Apart (s : Store κ) (scope : Scope SlotId) : Prop where
  inside : ∀ name i, scope.get? name = some i → i.index < s.slots.size
  distinct : ∀ name other i, scope.get? name = some i → scope.get? other = some i → name = other

namespace Apart

theorem empty (s : Store κ) : s.Apart .empty :=
  ⟨fun _ _ held => (by cases held), fun _ _ _ held => (by cases held)⟩

/-- A slot that is new is nobody else's. -/
theorem put (apart : s.Apart scope) (name : String) (slot : Slot) :
    (s.addSlot slot).2.Apart (scope.put name (s.addSlot slot).1) := by
  have size : (s.addSlot slot).2.slots.size = s.slots.size + 1 := Array.size_push _
  have old : ∀ other, scope.get? other ≠ some (s.addSlot slot).1 := fun other held =>
    Nat.lt_irrefl _ (apart.inside other _ held)
  refine ⟨fun other i held => ?_, fun one other i held held' => ?_⟩
  · rw [Scope.get?_put] at held
    rw [size]
    split at held
    · cases held
      exact Nat.lt_succ_self _
    · exact Nat.lt_succ_of_lt (apart.inside other i held)
  · rw [Scope.get?_put] at held held'
    split at held <;> split at held'
    · next same same' => exact same.symm.trans same'
    · cases held
      exact absurd held' (old other)
    · cases held'
      exact absurd held (old one)
    · exact apart.distinct one other i held held'

end Apart

theorem apart_declareFunction (home : EnvironmentId) (apart : s.Apart scope) (decl : ExportDecl κ) :
    (declareFunction identity home (scope, s) decl).2.Apart
      (declareFunction identity home (scope, s) decl).1 := by
  unfold declareFunction
  cases decl.source with
  | declaration code =>
    have added : (s.addFunction decl.name (.script code home)).2.Apart scope :=
      ⟨apart.inside, apart.distinct⟩
    exact added.put decl.name _
  | own | observed | indirect => exact apart

theorem apart_declareFunctions (home : EnvironmentId) (apart : s.Apart scope)
    (decls : List (ExportDecl κ)) :
    (decls.foldl (declareFunction identity home) (scope, s)).2.Apart
      (decls.foldl (declareFunction identity home) (scope, s)).1 := by
  induction decls generalizing scope s with
  | nil => exact apart
  | cons decl rest ih => exact ih (apart_declareFunction identity home apart decl)

/-- An own binding has its slot afterwards, and all others keep theirs. -/
theorem apart_ownSlot (name : String) (apart : s.Apart scope) :
    let (i, scope', s') := s.ownSlot identity name scope
    s'.Apart scope' ∧ scope'.get? name = some i ∧
      ∀ other j, scope.get? other = some j → scope'.get? other = some j := by
  unfold ownSlot
  cases held : scope.get? name with
  | some i => exact ⟨apart, held, fun _ _ old => old⟩
  | none =>
    refine ⟨apart.put name _, Scope.get?_put_self _ _ _, fun other j old => ?_⟩
    rw [Scope.get?_put, if_neg]
    · exact old
    · rintro rfl
      rw [held] at old
      cases old

/-- Exports that have a slot have that of the binding they stand for. -/
structure Shares (s : Store κ) (kind : ModuleKind) (decls : List (ExportDecl κ))
    (bindings : Bindings) : Prop where
  apart : s.Apart (bindings.given kind)
  stands : ∀ name i, bindings.exports.get? name = some i → ∃ decl ∈ decls,
    decl.name = name ∧ (bindings.given kind).get? (decl.binding kind) = some i

variable {decls : List (ExportDecl κ)} {decl : ExportDecl κ} {bindings : Bindings}

theorem Shares.start {kind : ModuleKind} (apart : s.Apart scope) :
    s.Shares kind decls ⟨scope, .empty⟩ := by
  refine ⟨?_, fun name i held => by cases held⟩
  cases kind with
  | script => exact apart
  | binary => exact .empty _

/-- One more export has the slot of an own binding. -/
private theorem Shares.own {i : SlotId} {locals : Scope SlotId}
    (shares : s.Shares .script decls bindings) (declared : decl ∈ decls) (apart : s'.Apart locals)
    (kept : ∀ name j, bindings.locals.get? name = some j → locals.get? name = some j)
    (held : locals.get? (decl.binding .script) = some i) :
    s'.Shares .script decls ⟨locals, bindings.exports.put decl.name i⟩ := by
  refine ⟨apart, fun name j found => ?_⟩
  rw [Scope.get?_put] at found
  split at found
  · next same =>
    cases found
    exact ⟨decl, declared, same, held⟩
  · obtain ⟨other, declared', named, held'⟩ := shares.stands name j found
    exact ⟨other, declared', named, kept _ j held'⟩

private theorem shares_script (allowed : ∀ localName, decl.source ≠ .observed localName)
    (declared : decl ∈ decls) (shares : s.Shares .script decls bindings) :
    (exportSlot identity .script (bindings, s) decl).2.Shares .script decls
      (exportSlot identity .script (bindings, s) decl).1 := by
  unfold exportSlot
  cases source : decl.source with
  | own name =>
    have named : decl.binding .script = name := by simp only [ExportDecl.binding, source]
    obtain ⟨apart, held, kept⟩ := apart_ownSlot identity name shares.apart
    exact shares.own declared apart kept (named ▸ held)
  | declaration code =>
    have named : decl.binding .script = decl.name := by simp only [ExportDecl.binding, source]
    cases held : bindings.locals.get? decl.name with
    | none =>
      simp only [held]
      exact shares
    | some i =>
      simp only [held]
      exact shares.own declared shares.apart (fun _ _ old => old) (named ▸ held)
  | observed localName => exact absurd source (allowed localName)
  | indirect specifier name => exact shares

private theorem shares_binary (allowed : ∀ code, decl.source ≠ .declaration code)
    (declared : decl ∈ decls) (shares : s.Shares .binary decls bindings) :
    (exportSlot identity .binary (bindings, s) decl).2.Shares .binary decls
      (exportSlot identity .binary (bindings, s) decl).1 := by
  have named : ∀ decl : ExportDecl κ, decl.binding .binary = decl.name := by
    intro decl
    unfold ExportDecl.binding
    cases decl.source <;> rfl
  have separate : ∀ slot : Slot, (s.addSlot slot).2.Shares .binary decls
      { bindings with exports := bindings.exports.put decl.name (s.addSlot slot).1 } := by
    refine fun slot => ⟨shares.apart.put decl.name slot, fun name j found => ?_⟩
    have only : ∃ other ∈ decls, other.name = name := by
      rw [Scope.get?_put] at found
      split at found
      · next same => exact ⟨decl, declared, same⟩
      · obtain ⟨other, declared', named, _⟩ := shares.stands name j found
        exact ⟨other, declared', named⟩
    obtain ⟨other, declared', rfl⟩ := only
    exact ⟨other, declared', rfl, by rwa [named]⟩
  unfold exportSlot
  cases source : decl.source with
  | own name => exact separate _
  | observed localName => exact separate _
  | declaration code => exact absurd source (allowed code)
  | indirect specifier name => exact shares

theorem shares_exportSlot (fits : record.WellFormed) (declared : decl ∈ record.exports)
    (shares : s.Shares record.kind record.exports bindings) :
    (exportSlot identity record.kind (bindings, s) decl).2.Shares record.kind record.exports
      (exportSlot identity record.kind (bindings, s) decl).1 := by
  cases shape : record.body with
  | script code =>
    have kind : record.kind = .script := by simp [Record.kind, shape]
    have allowed := (fits.script code shape decl declared).2
    rw [kind] at shares ⊢
    exact shares_script identity (fun _ source => by simp [source] at allowed) declared shares
  | binary body =>
    have kind : record.kind = .binary := by simp [Record.kind, shape]
    have allowed := (fits.binary body shape).exports decl declared
    rw [kind] at shares ⊢
    refine shares_binary identity (fun _ source => ?_) declared shares
    simp [Record.BinaryExportFits, source] at allowed

theorem shares_exportSlots (fits : record.WellFormed) {decls : List (ExportDecl κ)}
    (declared : ∀ decl ∈ decls, decl ∈ record.exports)
    (shares : s.Shares record.kind record.exports bindings) :
    (decls.foldl (exportSlot identity record.kind) (bindings, s)).2.Shares record.kind record.exports
      (decls.foldl (exportSlot identity record.kind) (bindings, s)).1 := by
  induction decls generalizing bindings s with
  | nil => exact shares
  | cons decl rest ih =>
    exact ih (fun other member => declared other (List.mem_cons_of_mem _ member))
      (shares_exportSlot identity fits (declared decl List.mem_cons_self) shares)

/-- Two exports with slots share them exactly if they stand for the same binding. -/
theorem Shares.eq_iff (shares : s.Shares record.kind record.exports bindings)
    (fits : record.WellFormed) {decl' : ExportDecl κ} {i i' : SlotId}
    (declared : decl ∈ record.exports) (declared' : decl' ∈ record.exports)
    (held : bindings.exports.get? decl.name = some i)
    (held' : bindings.exports.get? decl'.name = some i') :
    i = i' ↔ decl.binding record.kind = decl'.binding record.kind := by
  obtain ⟨other, member, named, given⟩ := shares.stands decl.name i held
  obtain ⟨other', member', named', given'⟩ := shares.stands decl'.name i' held'
  rw [fits.export_unique member declared named] at given
  rw [fits.export_unique member' declared' named'] at given'
  constructor
  · rintro rfl
    exact shares.apart.distinct _ _ i given given'
  · intro same
    rw [same, given'] at given
    exact (Option.some.inj given).symm

/-- A module that gets its slots shares them as it declares. -/
theorem allocate_shares (s : Store κ) (fits : record.WellFormed) :
    ∃ environment, (s.allocate identity record).2.environment? (s.allocate identity record).1 =
        some environment ∧
      ∀ decl ∈ record.exports, ∀ decl' ∈ record.exports, ∀ i i',
        environment.exports.get? decl.name = some i → environment.exports.get? decl'.name = some i' →
          (i = i' ↔ decl.binding record.kind = decl'.binding record.kind) := by
  have declares := apart_declareFunctions identity ⟨s.environments.size⟩ (.empty s) record.exports
  have shares := shares_exportSlots identity fits (fun _ member => member) (.start declares)
  refine ⟨_, Array.getElem?_push_size, fun decl declared decl' declared' i i' held held' => ?_⟩
  exact shares.eq_iff fits declared declared' held held'

end Store

namespace Registry

variable {r r' : Registry κ} {s s' : Store κ}

/-- Two exports of a module have the same slot exactly if they stand for the same binding. -/
def Shared (r : Registry κ) (s : Store κ) : Prop :=
  ∀ m i, r.get? m = some i → ∀ decl ∈ i.record.exports, ∀ decl' ∈ i.record.exports, ∀ slot slot',
    r.exportSlot? s m decl.name = some slot → r.exportSlot? s m decl'.name = some slot' →
      (slot = slot' ↔ decl.binding i.kind = decl'.binding i.kind)

theorem exportSlot?_eq_some_iff {m : ModuleId} {name : String} {slot : SlotId} :
    r.exportSlot? s m name = some slot ↔ ∃ i e environment, r.get? m = some i ∧
      i.environment = some e ∧ s.environment? e = some environment ∧
      environment.exports.get? name = some slot := by
  simp [exportSlot?, Option.bind_eq_some_iff]

/-- Exports share their slots as before where modules live as they did, and environments
have the exports they had. -/
theorem Shared.transfer (shared : r.Shared s)
    (homes : ∀ m e record, r'.HomeOf m e record → r.HomeOf m e record)
    (exports : ∀ e record after, r'.Home e record → s'.environment? e = some after →
      ∃ before, s.environment? e = some before ∧ before.exports = after.exports) :
    r'.Shared s' := by
  intro m i known decl declared decl' declared' slot slot' held held'
  obtain ⟨_, e, after, known₁, home, present, given⟩ := exportSlot?_eq_some_iff.mp held
  obtain ⟨_, e', after', known₂, home', present', given'⟩ := exportSlot?_eq_some_iff.mp held'
  cases known.symm.trans known₁
  cases known.symm.trans known₂
  cases home.symm.trans home'
  cases present.symm.trans present'
  obtain ⟨j, known', home', record⟩ := homes m e i.record ⟨i, known, home, rfl⟩
  obtain ⟨before, there, same⟩ := exports e i.record after ⟨m, i, known, home, rfl⟩ present
  have kind : j.kind = i.kind := congrArg Record.kind record
  rw [← kind]
  rw [← record] at declared declared'
  rw [← same] at given given'
  exact shared m j known' decl declared decl' declared' slot slot'
    (exportSlot?_eq_some_iff.mpr ⟨j, e, before, known', home', there, given⟩)
    (exportSlot?_eq_some_iff.mpr ⟨j, e, before, known', home', there, given'⟩)

end Registry

namespace Links

variable {l l' : Links κ} {g : ModuleGraph} {m : ModuleId}

theorem shared_stage (housed : l.Housed) (shared : l.registry.Shared l.store)
    (fits : ∀ i, l.registry.get? m = some i → i.record.WellFormed) :
    (l.stage m).registry.Shared (l.stage m).store := by
  intro x j known decl declared decl' declared' slot slot' held held'
  obtain ⟨_, e, environment, there, home, present, given⟩ := Registry.exportSlot?_eq_some_iff.mp held
  obtain ⟨_, _, _, there', home', present', given'⟩ := Registry.exportSlot?_eq_some_iff.mp held'
  cases known.symm.trans there
  cases known.symm.trans there'
  cases home.symm.trans home'
  cases present.symm.trans present'
  rcases lives_stage housed fits ⟨known, home, present⟩ with old | ⟨i, was, record, made⟩
  · exact shared x j old.known decl declared decl' declared' slot slot'
      (Registry.exportSlot?_eq_some_iff.mpr ⟨j, e, _, old.known, old.home, old.present, given⟩)
      (Registry.exportSlot?_eq_some_iff.mpr ⟨j, e, _, old.known, old.home, old.present, given'⟩)
  · obtain ⟨_, made', shares⟩ := Store.allocate_shares i.identity l.store (fits i was)
    cases made.symm.trans made'
    rw [Instance.kind, record]
    rw [record] at declared declared'
    exact shares decl declared decl' declared' slot slot' given given'

theorem shared_staged (ms : List ModuleId) (housed : l.Housed) (shared : l.registry.Shared l.store)
    (fits : ∀ x i, l.registry.get? x = some i → i.record.WellFormed) :
    (ms.foldl stage l).registry.Shared (ms.foldl stage l).store := by
  induction ms generalizing l with
  | nil => exact shared
  | cons m rest ih =>
    refine ih (housed_stage housed (fits m) (Nat.le_refl _)).1 (shared_stage housed shared (fits m)) ?_
    intro x j held
    obtain ⟨i, known, same⟩ := record_stage held
    exact same ▸ fits x i known

/-- Linking a graph leaves modules with shared slots. -/
theorem shared_of_link (housed : l.Housed) (stocked : l.registry.Stocked)
    (linkage : l.registry.Linkage) (faithful : g.Faithful l.registry)
    (shared : l.registry.Shared l.store) (ran : link l g = .ok l') :
    l'.registry.Shared l'.store := by
  have staged := shared_staged (l.pending g) housed shared fun x i known =>
    Record.wellFormed_of_validate (stocked.checked x i known)
  obtain ⟨_, bound, binds, rfl⟩ := link_eq_ok ran
  have decision := decision_link housed stocked linkage faithful
  rw [ran] at decision
  cases decision with
  | granted _ granted _ =>
    have same := imports_congr (reassigned_staged (l.pending g) l) (l.pending g)
    obtain ⟨_, ran', onward, _⟩ := bindAll_of_grants (bindable_staged housed stocked faithful)
      (.refl _) fun ask member => granted ask (same ▸ member)
    cases binds.symm.trans ran'
    refine staged.transfer (fun m e record ⟨i, known, home, held⟩ => ?_)
      fun e _ after _ present => ?_
    · obtain ⟨_, change⟩ := Registry.get?_addComponents
        (g.components (l.pending g).contains) bound.registry m
      rw [known, onward.registry] at change
      obtain ⟨j, before, rfl⟩ := Option.map_eq_some_iff.mp change.symm
      exact ⟨j, before, home, held⟩
    · have exports := onward.exports e
      rw [present] at exports
      obtain ⟨before, there, same⟩ := Option.map_eq_some_iff.mp exports.symm
      exact ⟨before, there, same⟩

end Links
end MixedModules
