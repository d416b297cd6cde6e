import MixedModules.Link.Slots
import MixedModules.Proofs.Store.Soundness

/-! What the slots of a module are.

The module owns every slot that it gets. An own binding has no declared type, an export
has that of its declaration, and every export has a slot unless it is taken from
another module. -/
namespace MixedModules

variable {κ : Type}

namespace Scope

variable {α : Type} {before between after : Scope α}

/-- Names that are there are there afterwards. -/
def Within (before after : Scope α) : Prop :=
  ∀ name a, before.get? name = some a → ∃ b, after.get? name = some b

theorem Within.refl (scope : Scope α) : scope.Within scope := fun _ a held => ⟨a, held⟩

theorem Within.trans (first : before.Within between) (second : between.Within after) :
    before.Within after := by
  intro name a held
  obtain ⟨b, held⟩ := first name a held
  exact second name b held

theorem within_put (scope : Scope α) (name : String) (a : α) : scope.Within (scope.put name a) := by
  intro other b held
  rw [get?_put]
  split
  · exact ⟨a, rfl⟩
  · exact ⟨b, held⟩

theorem get?_put_self (scope : Scope α) (name : String) (a : α) :
    (scope.put name a).get? name = some a := by
  rw [get?_put, if_pos rfl]

end Scope

namespace Store

variable {s s' s'' : Store κ} {record : Record κ} (identity : String)

/-- Slots and functions are added, and the new slots are sound. -/
structure Furnished (s s' : Store κ) : Prop where
  keeps : s.Keeps s'
  environments : s'.environments = s.environments
  fresh : ∀ i slot, s'.slot? i = some slot → s.slot? i = some slot ∨ s'.SoundSlot slot
  intact : s.Intact → s'.Intact
  genuine : s.Genuine → s'.Genuine

namespace Furnished

theorem refl (s : Store κ) : s.Furnished s :=
  ⟨.refl s, rfl, fun _ _ known => .inl known, id, id⟩

theorem trans (first : s.Furnished s') (second : s'.Furnished s'') : s.Furnished s'' := by
  refine ⟨first.keeps.trans second.keeps, second.environments.trans first.environments,
    fun i slot known => ?_, second.intact ∘ first.intact, second.genuine ∘ first.genuine⟩
  rcases second.fresh i slot known with known | sound
  · exact (first.fresh i slot known).imp_right fun sound => sound.kept second.keeps
  · exact .inr sound

end Furnished

theorem slot?_addSlot (s : Store κ) (slot : Slot) (i : SlotId) :
    (s.addSlot slot).2.slot? i = if i.index = s.slots.size then some slot else s.slot? i := by
  simp only [addSlot, slot?, Array.getElem?_push]

theorem Genuine.addSlot {slot : Slot} (genuine : s.Genuine)
    (has : ∀ value, slot.value? = some value → s.Has value) : (s.addSlot slot).2.Genuine where
  slots i held value known present := by
    rw [slot?_addSlot] at known
    split at known
    · cases known
      exact has value present
    · exact genuine.slots i held value known present
  entities := genuine.entities
  elements := genuine.elements

/-- A new slot, with a value only if it has no type, and if so one that is there. -/
theorem furnished_addSlot (s : Store κ) (slot : Slot) (kind : slot.kind = slot.type.bindingKind)
    (empty : slot.type ≠ .none → slot.value? = none)
    (has : ∀ value, slot.value? = some value → s.Has value) : s.Furnished (s.addSlot slot).2 ∧
      (s.addSlot slot).2.SlotOf (s.addSlot slot).1 slot.owner slot.type := by
  refine ⟨⟨(grows_addSlot s slot).toKeeps, rfl, fun i held known => ?_,
    fun intact => intact.grows rfl rfl (grows_addSlot s slot),
    fun genuine => genuine.addSlot has⟩, slot, ?_, rfl, rfl⟩
  · rw [slot?_addSlot] at known
    split at known
    · cases known
      refine .inr ⟨kind, fun typed value present => ?_⟩
      rw [empty typed] at present
      cases present
    · exact .inl known
  · rw [slot?_addSlot]
    exact if_pos rfl

theorem furnished_addFunction (s : Store κ) (name : String) (code : κ) (home : EnvironmentId) :
    s.Furnished (s.addFunction name (.script code home)).2 :=
  have added : s.SameBindings (s.addFunction name (.script code home)).2 :=
    sameBindings_addFunction s name nofun nofun
  ⟨added.grows.toKeeps, rfl, fun _ _ known => .inl known, added.intact,
    fun genuine => genuine.addFunction name _⟩

/-! ## Own bindings -/

/-- Own bindings have slots of the module, without a type. -/
def Owned (s : Store κ) (identity : String) (locals : Scope SlotId) : Prop :=
  ∀ name i, locals.get? name = some i → s.SlotOf i identity .none

variable {identity}

theorem Owned.kept {locals : Scope SlotId} (owned : s.Owned identity locals) (keeps : s.Keeps s') :
    s'.Owned identity locals := fun name i held => (owned name i held).kept keeps

theorem Owned.put {locals : Scope SlotId} {name : String} {i : SlotId}
    (owned : s.Owned identity locals) (made : s.SlotOf i identity .none) :
    s.Owned identity (locals.put name i) := by
  intro other j held
  rw [Scope.get?_put] at held
  split at held
  · cases held
    exact made
  · exact owned other j held

variable (identity)

theorem furnished_declareFunction (home : EnvironmentId) {locals : Scope SlotId}
    (owned : s.Owned identity locals) (decl : ExportDecl κ) :
    s.Furnished (declareFunction identity home (locals, s) decl).2 ∧
      (declareFunction identity home (locals, s) decl).2.Owned identity
        (declareFunction identity home (locals, s) decl).1 := by
  unfold declareFunction
  cases decl.source with
  | declaration code =>
    have added := furnished_addFunction s decl.name code home
    obtain ⟨slotted, made⟩ := furnished_addSlot (s.addFunction decl.name (.script code home)).2
      ⟨identity, decl.name, .value, .none, .live (.function _)⟩ rfl (fun typed => absurd rfl typed)
      fun value held => Option.some.inj held ▸ ⟨_, function_addFunction s decl.name _⟩
    have all := added.trans slotted
    exact ⟨all, (owned.kept all.keeps).put made⟩
  | own | observed | indirect => exact ⟨.refl s, owned⟩

private theorem foldl_declareFunction (home : EnvironmentId) {locals : Scope SlotId}
    (owned : s.Owned identity locals) (decls : List (ExportDecl κ)) :
    s.Furnished (decls.foldl (declareFunction identity home) (locals, s)).2 ∧
      (decls.foldl (declareFunction identity home) (locals, s)).2.Owned identity
        (decls.foldl (declareFunction identity home) (locals, s)).1 := by
  induction decls generalizing locals s with
  | nil => exact ⟨.refl s, owned⟩
  | cons decl rest ih =>
    obtain ⟨first, kept⟩ := furnished_declareFunction identity home owned decl
    obtain ⟨others, last⟩ := ih kept
    exact ⟨first.trans others, last⟩

/-- A declared function has its binding before any export gets its slot. -/
private theorem declares_declareFunction (home : EnvironmentId) (state : Scope SlotId × Store κ)
    (decl : ExportDecl κ) : state.1.Within (declareFunction identity home state decl).1 ∧
      ∀ code, decl.source = .declaration code →
        ∃ i, (declareFunction identity home state decl).1.get? decl.name = some i := by
  unfold declareFunction
  cases decl.source with
  | declaration code => exact ⟨Scope.within_put _ _ _, fun _ _ => ⟨_, Scope.get?_put_self _ _ _⟩⟩
  | own | observed | indirect => exact ⟨.refl _, nofun⟩

theorem declares_foldl (home : EnvironmentId) (decls : List (ExportDecl κ))
    (state : Scope SlotId × Store κ) :
    state.1.Within (decls.foldl (declareFunction identity home) state).1 ∧
      ∀ decl ∈ decls, ∀ code, decl.source = .declaration code →
        ∃ i, (decls.foldl (declareFunction identity home) state).1.get? decl.name = some i := by
  induction decls generalizing state with
  | nil => exact ⟨.refl _, by simp⟩
  | cons decl rest ih =>
    obtain ⟨kept, here⟩ := declares_declareFunction identity home state decl
    obtain ⟨kept', there⟩ := ih (declareFunction identity home state decl)
    refine ⟨kept.trans kept', fun other member code source => ?_⟩
    rcases List.mem_cons.mp member with rfl | member
    · obtain ⟨i, held⟩ := here code source
      exact kept' _ i held
    · exact there other member code source

private theorem furnished_ownSlot (name : String) {locals : Scope SlotId}
    (owned : s.Owned identity locals) :
    let (i, locals', s') := s.ownSlot identity name locals
    s.Furnished s' ∧ s'.Owned identity locals' ∧ s'.SlotOf i identity .none := by
  unfold ownSlot
  cases held : locals.get? name with
  | some i => exact ⟨.refl s, owned, owned name i held⟩
  | none =>
    obtain ⟨slotted, made⟩ := furnished_addSlot s ⟨identity, name, .value, .none, .uninitialized⟩
      rfl (fun _ => rfl) nofun
    exact ⟨slotted, (owned.kept slotted.keeps).put made, made⟩

/-! ## Exports -/

/-- Exports have slots of the module, of the types they declare. -/
def Exported (s : Store κ) (identity : String) (record : Record κ) (exports : Scope SlotId) : Prop :=
  ∀ name i, exports.get? name = some i →
    ∃ decl ∈ record.exports, decl.name = name ∧ s.SlotOf i identity decl.type

variable {identity}

theorem Exported.kept {exports : Scope SlotId} (exported : s.Exported identity record exports)
    (keeps : s.Keeps s') : s'.Exported identity record exports := fun name i held => by
  obtain ⟨decl, declared, named, made⟩ := exported name i held
  exact ⟨decl, declared, named, made.kept keeps⟩

theorem Exported.put {exports : Scope SlotId} {decl : ExportDecl κ} {i : SlotId}
    (exported : s.Exported identity record exports) (declared : decl ∈ record.exports)
    (made : s.SlotOf i identity decl.type) :
    s.Exported identity record (exports.put decl.name i) := by
  intro name j held
  rw [Scope.get?_put] at held
  split at held
  · rename_i same
    cases held
    exact ⟨decl, declared, same, made⟩
  · exact exported name j held

variable (identity)

/-- An export gets a slot of its type. -/
theorem furnished_exportSlot {bindings : Bindings} {decl : ExportDecl κ} (fits : record.WellFormed)
    (declared : decl ∈ record.exports) (owned : s.Owned identity bindings.locals)
    (exported : s.Exported identity record bindings.exports) :
    let (bindings', s') := exportSlot identity record.kind (bindings, s) decl
    s.Furnished s' ∧ s'.Owned identity bindings'.locals ∧
      s'.Exported identity record bindings'.exports := by
  have separate := furnished_addSlot s
    ⟨identity, decl.name, decl.kind, decl.type, .uninitialized⟩ (fits.exportKinds decl declared)
    (fun _ => rfl) nofun
  have apart := (⟨separate.1, owned.kept separate.1.keeps,
    (exported.kept separate.1.keeps).put declared separate.2⟩ : _ ∧ _ ∧ _)
  have untypedExport : record.kind = .script → decl.type = .none := by
    intro script
    cases shape : record.body with
    | script code => exact (fits.script code shape decl declared).1
    | binary body => simp [Record.kind, shape] at script
  unfold exportSlot
  cases source : decl.source with
  | own name =>
    cases shape : record.kind with
    | script =>
      obtain ⟨slotted, kept, made⟩ := furnished_ownSlot identity name owned
      exact ⟨slotted, kept, (exported.kept slotted.keeps).put declared
        (by rwa [untypedExport shape])⟩
    | binary => exact apart
  | declaration code =>
    cases held : bindings.locals.get? decl.name with
    | none =>
      simp only [held]
      exact ⟨.refl s, owned, exported⟩
    | some i =>
      simp only [held]
      exact ⟨.refl s, owned, exported.put declared (by
        rw [untypedExport (fits.script_of_declaration declared source)]
        exact owned decl.name i held)⟩
  | observed localName => exact apart
  | indirect specifier name => exact ⟨.refl s, owned, exported⟩

private theorem foldl_exportSlot (fits : record.WellFormed) {decls : List (ExportDecl κ)}
    (declared : ∀ decl ∈ decls, decl ∈ record.exports) (bindings : Bindings)
    (owned : s.Owned identity bindings.locals)
    (exported : s.Exported identity record bindings.exports) :
    let (bindings', s') := decls.foldl (exportSlot identity record.kind) (bindings, s)
    s.Furnished s' ∧ s'.Owned identity bindings'.locals ∧
      s'.Exported identity record bindings'.exports := by
  induction decls generalizing bindings s with
  | nil => exact ⟨.refl s, owned, exported⟩
  | cons decl rest ih =>
    obtain ⟨first, kept, given⟩ := furnished_exportSlot identity fits
      (declared decl List.mem_cons_self) owned exported
    obtain ⟨others, last⟩ := ih (fun other member => declared other (List.mem_cons_of_mem _ member))
      _ kept given
    exact ⟨first.trans others, last⟩

/-- An export has a slot afterwards unless it is taken from another module. A declared
function must have its binding already. -/
theorem gives_exportSlot (kind : ModuleKind) (state : Bindings × Store κ)
    (decl : ExportDecl κ) :
    state.1.locals.Within (exportSlot identity kind state decl).1.locals ∧
      state.1.exports.Within (exportSlot identity kind state decl).1.exports ∧
      ((∀ specifier inner, decl.source ≠ .indirect specifier inner) →
        (∀ code, decl.source = .declaration code →
          ∃ i, state.1.locals.get? decl.name = some i) →
        ∃ i, (exportSlot identity kind state decl).1.exports.get? decl.name = some i) := by
  unfold exportSlot
  cases source : decl.source with
  | own name =>
    cases kind with
    | script =>
      refine ⟨?_, Scope.within_put _ _ _, fun _ _ => ⟨_, Scope.get?_put_self _ _ _⟩⟩
      unfold ownSlot
      cases held : state.1.locals.get? name with
      | some i => simpa [held] using Scope.Within.refl _
      | none => simpa [held] using Scope.within_put _ _ _
    | binary =>
      exact ⟨.refl _, Scope.within_put _ _ _, fun _ _ => ⟨_, Scope.get?_put_self _ _ _⟩⟩
  | declaration code =>
    cases held : state.1.locals.get? decl.name with
    | none =>
      simp only [held]
      refine ⟨.refl _, .refl _, fun _ declared => ?_⟩
      obtain ⟨i, found⟩ := declared code rfl
      cases found
    | some i =>
      simp only [held]
      exact ⟨.refl _, Scope.within_put _ _ _, fun _ _ => ⟨_, Scope.get?_put_self _ _ _⟩⟩
  | observed localName =>
    exact ⟨.refl _, Scope.within_put _ _ _, fun _ _ => ⟨_, Scope.get?_put_self _ _ _⟩⟩
  | indirect specifier name => exact ⟨.refl _, .refl _, fun own => absurd rfl (own _ _)⟩

private theorem gives_foldl (kind : ModuleKind) (decls : List (ExportDecl κ))
    (state : Bindings × Store κ)
    (declared : ∀ decl ∈ decls, ∀ code, decl.source = .declaration code →
      ∃ i, state.1.locals.get? decl.name = some i) :
    state.1.exports.Within (decls.foldl (exportSlot identity kind) state).1.exports ∧
      ∀ decl ∈ decls, (∀ specifier inner, decl.source ≠ .indirect specifier inner) →
        ∃ i, (decls.foldl (exportSlot identity kind) state).1.exports.get? decl.name = some i := by
  induction decls generalizing state with
  | nil => exact ⟨.refl _, by simp⟩
  | cons decl rest ih =>
    obtain ⟨locals, exports, here⟩ := gives_exportSlot identity kind state decl
    obtain ⟨kept, there⟩ := ih (exportSlot identity kind state decl) fun other member code source => by
      obtain ⟨i, held⟩ := declared other (List.mem_cons_of_mem _ member) code source
      exact locals _ i held
    refine ⟨exports.trans kept, fun other member own => ?_⟩
    rcases List.mem_cons.mp member with rfl | member
    · obtain ⟨i, held⟩ := here own (declared other List.mem_cons_self)
      exact kept _ i held
    · exact there other member own

/-- A module gets its slots and an environment that fits its record, without imports
and entities so far. -/
theorem allocate_spec (s : Store κ) (identity : String) (fits : record.WellFormed) :
    ∃ s₁ environment, s.allocate identity record = s₁.addEnvironment environment ∧
      s.Furnished s₁ ∧ s₁.Houses record environment ∧
      s₁.Owned environment.identity environment.locals ∧ environment.identity = identity := by
  have none : s.Owned identity .empty := fun name i held => by cases held
  have declares := (declares_foldl identity ⟨s.environments.size⟩ record.exports (.empty, s)).2
  obtain ⟨first, declared⟩ := foldl_declareFunction identity ⟨s.environments.size⟩ none record.exports
  obtain ⟨second, owned, exported⟩ := foldl_exportSlot identity fits (fun _ member => member)
    ⟨_, .empty⟩ declared (fun name i held => by cases held)
  obtain ⟨_, given⟩ := gives_foldl identity record.kind record.exports (⟨_, .empty⟩, _) declares
  refine ⟨_, _, rfl, first.trans second, ⟨rfl, fun name value held => ?_, exported, given, ?_⟩,
    owned, rfl⟩
  · cases held
  · simp [Scope.values, Scope.empty]

end Store
end MixedModules
