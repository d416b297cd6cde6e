import MixedModules.Proofs.Link.Beginning

/-! The slots of a module and the order of its exports.

What slots a module gets can be said of its exports one by one and two by two, without an order
among them. So another order of the same exports gives the same slots under other handles: an
alias shares the slot of a function whether it stands before the declaration or after it. -/
namespace MixedModules

variable {κ : Type}

/-- An export that is not taken from another module. -/
def ExportDecl.Direct (decl : ExportDecl κ) : Prop :=
  ∀ specifier inner, decl.source ≠ .indirect specifier inner

namespace ExportDecl

variable {decl : ExportDecl κ} {name : String}

theorem binding_of_binds (binds : decl.Binds .script name) : decl.binding .script = name := by
  unfold Binds at binds
  unfold binding
  cases source : decl.source <;> simp_all

theorem direct_of_binds {kind : ModuleKind} (binds : decl.Binds kind name) : decl.Direct := by
  intro specifier inner source
  simp [Binds, source] at binds

theorem binding_binary (decl : ExportDecl κ) : decl.binding .binary = decl.name := by
  unfold binding
  cases decl.source <;> rfl

end ExportDecl

namespace Record

variable {record : Record κ} {decl : ExportDecl κ} {name : String}

/-- Well-formed records stay so when their exports are put in another order. -/
theorem WellFormed.reorder (fits : record.WellFormed) {exports : List (ExportDecl κ)}
    (same : exports.Perm record.exports) : { record with exports }.WellFormed where
  imports decl member := ⟨(fits.imports decl member).requested, (fits.imports decl member).kind,
    (fits.imports decl member).typed, (fits.imports decl member).untyped⟩
  importsDistinct := fits.importsDistinct
  stars := fits.stars
  exportKinds decl member := fits.exportKinds decl (same.mem_iff.mp member)
  exportsDistinct := (same.map _).nodup_iff.mpr fits.exportsDistinct
  script code shape decl member := fits.script code shape decl (same.mem_iff.mp member)
  binary body shape :=
    have fits := fits.binary body shape
    ⟨fits.distinct, fits.unshadowed, fits.initials, fits.data, fits.elements, fits.start,
      fun decl member => fits.exports decl (same.mem_iff.mp member)⟩

/-- Only script modules have own bindings. -/
theorem WellFormed.script_of_binds (fits : record.WellFormed) (declared : decl ∈ record.exports)
    (binds : decl.Binds record.kind name) : record.kind = .script := by
  cases kind : record.kind with
  | script => rfl
  | binary =>
    unfold ExportDecl.Binds at binds
    cases source : decl.source with
    | declaration code => exact kind ▸ fits.script_of_declaration declared source
    | own | observed | indirect => simp [kind, source] at binds

/-- Exports of a script module have no types. -/
theorem WellFormed.untyped (fits : record.WellFormed) (script : record.kind = .script)
    (declared : decl ∈ record.exports) : decl.type = .none ∧ decl.kind = .value := by
  cases shape : record.body with
  | binary body => simp [Record.kind, shape] at script
  | script code =>
    have untyped := (fits.script code shape decl declared).1
    refine ⟨untyped, ?_⟩
    rw [fits.exportKinds decl declared, untyped]
    rfl

/-- A binary module gives on nothing of other modules. -/
theorem WellFormed.direct (fits : record.WellFormed) (binary : record.kind = .binary)
    (declared : decl ∈ record.exports) : decl.Direct := by
  cases shape : record.body with
  | script code => simp [Record.kind, shape] at binary
  | binary body =>
    have checked := (fits.binary body shape).exports decl declared
    intro specifier inner source
    simp [BinaryExportFits, source] at checked

end Record

namespace Store

variable {base s s' : Store κ} {record : Record κ} {scope : Scope SlotId} {identity : String}

/-- Every slot that is new is that of a name. -/
def Covered (base s : Store κ) (scope : Scope SlotId) : Prop :=
  ∀ i slot, s.slot? i = some slot →
    base.slot? i = some slot ∨ ∃ name, scope.get? name = some i

theorem Covered.put (covered : base.Covered s scope) {name : String} (absent : scope.get? name = none)
    (slot : Slot) : base.Covered (s.addSlot slot).2 (scope.put name (s.addSlot slot).1) := by
  intro i held known
  rw [slot?_addSlot] at known
  split at known
  · next new =>
    refine .inr ⟨name, ?_⟩
    rw [Scope.get?_put_self]
    cases i
    exact congrArg some (congrArg SlotId.mk new.symm)
  · refine (covered i held known).imp_right fun ⟨other, found⟩ => ⟨other, ?_⟩
    rw [Scope.get?_put, if_neg, found]
    rintro rfl
    rw [absent] at found
    cases found

/-- Declared functions have bindings under their names, and nothing else is new. -/
private theorem covered_declareFunctions (s : Store κ) (identity : String) (home : EnvironmentId)
    {decls : List (ExportDecl κ)} (distinct : (decls.map (·.name)).Nodup) :
    (∀ name i, (decls.foldl (declareFunction identity home) (.empty, s)).1.get? name = some i →
        ∃ decl ∈ decls, decl.name = name ∧ ∃ code, decl.source = .declaration code) ∧
      s.Covered (decls.foldl (declareFunction identity home) (.empty, s)).2
        (decls.foldl (declareFunction identity home) (.empty, s)).1 := by
  induction decls using List.reverseRecOn with
  | nil => exact ⟨fun name i held => (by cases held), fun i slot known => .inl known⟩
  | append_singleton done decl ih =>
    rw [List.map_append, List.nodup_append] at distinct
    obtain ⟨named, covered⟩ := ih distinct.1
    simp only [List.foldl_append, List.foldl_cons, List.foldl_nil]
    generalize done.foldl (declareFunction identity home) (.empty, s) = state at named covered
    obtain ⟨locals, s₁⟩ := state
    have absent : locals.get? decl.name = none := by
      by_contra present
      obtain ⟨i, held⟩ := Option.ne_none_iff_exists'.mp present
      obtain ⟨other, member, same, _⟩ := named _ i held
      exact distinct.2.2 _ (List.mem_map_of_mem member) decl.name (by simp) same
    have onward : ∀ name i, locals.get? name = some i → ∃ decl' ∈ done ++ [decl],
        decl'.name = name ∧ ∃ code, decl'.source = .declaration code := fun name i held => by
      obtain ⟨other, member, rest⟩ := named name i held
      exact ⟨other, List.mem_append_left _ member, rest⟩
    unfold declareFunction
    cases source : decl.source with
    | declaration code =>
      refine ⟨fun name i held => ?_, ?_⟩
      · simp only at held
        rw [Scope.get?_put] at held
        split at held
        · next same => exact ⟨decl, by simp, same, code, source⟩
        · exact onward name i held
      · have added : s.Covered (s₁.addFunction decl.name (.script code home)).2 locals := covered
        exact added.put absent _
    | own | observed | indirect => exact ⟨onward, covered⟩

/-- The exports that have slots so far are not taken from other modules, those of a binary module
have empty slots as they declare, and nothing else is new. -/
private structure Given (base s : Store κ) (identity : String) (kind : ModuleKind)
    (done : List (ExportDecl κ)) (bindings : Bindings) : Prop where
  direct : ∀ name i, bindings.exports.get? name = some i → ∃ decl ∈ done, decl.name = name ∧
    decl.Direct ∧ (kind = .binary →
      s.slot? i = some ⟨identity, decl.name, decl.kind, decl.type, .uninitialized⟩)
  covered : base.Covered s (bindings.given kind)

namespace Given

variable {kind : ModuleKind} {done : List (ExportDecl κ)} {decl : ExportDecl κ} {bindings : Bindings}
  {locals : Scope SlotId}

private theorem more (given : base.Given s identity kind done bindings) :
    base.Given s identity kind (done ++ [decl]) bindings := by
  refine ⟨fun name i held => ?_, given.covered⟩
  obtain ⟨other, member, rest⟩ := given.direct name i held
  exact ⟨other, List.mem_append_left _ member, rest⟩

/-- An export of a script module gets the slot of a binding. -/
private theorem own (given : base.Given s identity .script done bindings) (direct : decl.Direct)
    (covered : base.Covered s' locals) (i : SlotId) :
    base.Given s' identity .script (done ++ [decl]) ⟨locals, bindings.exports.put decl.name i⟩ := by
  refine ⟨fun name j held => ?_, covered⟩
  rw [Scope.get?_put] at held
  split at held
  · next same => exact ⟨decl, by simp, same, direct, nofun⟩
  · obtain ⟨other, member, same, direct, _⟩ := given.direct name j held
    exact ⟨other, List.mem_append_left _ member, same, direct, nofun⟩

/-- An export of a binary module gets a slot of its own. -/
private theorem separate (given : base.Given s identity .binary done bindings) (direct : decl.Direct)
    (fresh : ∀ other ∈ done, other.name ≠ decl.name) :
    let (i, s') := s.addSlot ⟨identity, decl.name, decl.kind, decl.type, .uninitialized⟩
    base.Given s' identity .binary (done ++ [decl])
      ⟨bindings.locals, bindings.exports.put decl.name i⟩ := by
  have absent : bindings.exports.get? decl.name = none := by
    by_contra present
    obtain ⟨i, held⟩ := Option.ne_none_iff_exists'.mp present
    obtain ⟨other, member, same, _⟩ := given.direct _ i held
    exact fresh other member same
  have adds := Adds.addSlot s ⟨identity, decl.name, decl.kind, decl.type, .uninitialized⟩
  refine ⟨fun name j held => ?_, given.covered.put absent _⟩
  rw [Scope.get?_put] at held
  split at held
  · next same =>
    cases held
    exact ⟨decl, by simp, same, direct, fun _ => Array.getElem?_push_size⟩
  · obtain ⟨other, member, same, direct, filled⟩ := given.direct name j held
    exact ⟨other, List.mem_append_left _ member, same, direct,
      fun binary => adds.slots j _ (filled binary)⟩

private theorem next (given : base.Given s identity record.kind done bindings)
    (fits : record.WellFormed) (declared : decl ∈ record.exports)
    (fresh : ∀ other ∈ done, other.name ≠ decl.name) :
    base.Given (exportSlot identity record.kind (bindings, s) decl).2 identity record.kind
      (done ++ [decl]) (exportSlot identity record.kind (bindings, s) decl).1 := by
  unfold exportSlot
  cases shape : record.body with
  | script code =>
    have kind : record.kind = .script := by simp [Record.kind, shape]
    have allowed := (fits.script code shape decl declared).2
    rw [kind] at given ⊢
    cases source : decl.source with
    | own name =>
      have direct : decl.Direct := by simp [ExportDecl.Direct, source]
      unfold ownSlot
      cases held : bindings.locals.get? name with
      | some i =>
        simp only [held]
        exact given.own direct given.covered i
      | none =>
        simp only [held]
        exact given.own direct (given.covered.put held _) _
    | declaration code =>
      have direct : decl.Direct := by simp [ExportDecl.Direct, source]
      cases held : bindings.locals.get? decl.name with
      | some i =>
        simp only [held]
        exact given.own direct given.covered i
      | none =>
        simp only [held]
        exact given.more
    | observed localName => simp [source] at allowed
    | indirect specifier inner => exact given.more
  | binary body =>
    have kind : record.kind = .binary := by simp [Record.kind, shape]
    have allowed := (fits.binary body shape).exports decl declared
    unfold Record.BinaryExportFits at allowed
    rw [kind] at given ⊢
    cases source : decl.source with
    | own name => exact given.separate (by simp [ExportDecl.Direct, source]) fresh
    | observed localName => exact given.separate (by simp [ExportDecl.Direct, source]) fresh
    | declaration | indirect => simp [source] at allowed

end Given

private theorem given_exportSlots (fits : record.WellFormed) {decls : List (ExportDecl κ)}
    (declared : ∀ decl ∈ decls, decl ∈ record.exports) (distinct : (decls.map (·.name)).Nodup)
    {bindings : Bindings} (start : base.Given s identity record.kind [] bindings) :
    base.Given (decls.foldl (exportSlot identity record.kind) (bindings, s)).2 identity record.kind
      decls (decls.foldl (exportSlot identity record.kind) (bindings, s)).1 := by
  induction decls using List.reverseRecOn with
  | nil => exact start
  | append_singleton done decl ih =>
    rw [List.map_append, List.nodup_append] at distinct
    rw [List.foldl_append]
    refine (ih (fun other member => declared other (List.mem_append_left _ member)) distinct.1).next
      fits (declared decl (by simp)) fun other member same => ?_
    exact distinct.2.2 _ (List.mem_map_of_mem member) decl.name (by simp) same

/-! ## The layout of a module -/

/-- What slots a module gets: `base` is the store before and `s` the one in which they are.
Exports have slots unless they are other modules', and share them if they stand for one binding.
A slot bears the name of its binding and holds a declared function of this name, if there is one.
The own bindings are those that exports stand for, and nothing else is new. -/
structure Layout (base s : Store κ) (identity : String) (record : Record κ)
    (environment : Environment) : Prop where
  bears : environment.identity = identity
  kind : environment.kind = record.kind
  exported : ∀ name, (∃ i, environment.exports.get? name = some i) ↔
    ∃ decl ∈ record.exports, decl.name = name ∧ decl.Direct
  shared : ∀ decl ∈ record.exports, ∀ decl' ∈ record.exports, ∀ i i',
    environment.exports.get? decl.name = some i → environment.exports.get? decl'.name = some i' →
      (i = i' ↔ decl.binding record.kind = decl'.binding record.kind)
  filled : ∀ decl ∈ record.exports, ∀ i, environment.exports.get? decl.name = some i →
    ∃ content, s.slot? i =
        some ⟨identity, decl.binding record.kind, decl.kind, decl.type, content⟩ ∧
      s.Begins ⟨base.environments.size⟩ record (decl.binding record.kind) content
  separate : record.kind = .binary → ∀ decl ∈ record.exports, ∃ i,
    environment.exports.get? decl.name = some i ∧
      s.slot? i = some ⟨identity, decl.name, decl.kind, decl.type, .uninitialized⟩ ∧
      ∀ other, environment.exports.get? other = some i → other = decl.name
  owned : ∀ name i, environment.locals.get? name = some i ↔ ∃ decl ∈ record.exports,
    decl.Binds record.kind name ∧ environment.exports.get? decl.name = some i
  kept : ∀ i slot, base.slot? i = some slot → s.slot? i = some slot
  fresh : ∀ i slot, s.slot? i = some slot → (base.slot? i = none ↔
    ∃ decl ∈ record.exports, environment.exports.get? decl.name = some i)

section Allocation

variable {bindings : Bindings} {environment : Environment} {decl : ExportDecl κ} {i : SlotId}
  {name : String} (fits : record.WellFormed)
  (shares : s'.Shares record.kind record.exports bindings)
  (given : base.Given s identity record.kind record.exports bindings)
  (opens : s.Opens ⟨base.environments.size⟩ record identity bindings.locals)
  (gives : ∀ decl ∈ record.exports, decl.Direct → ∃ i, bindings.exports.get? decl.name = some i)

include fits shares

/-- The export of a binding has the slot that the binding has. -/
private theorem given_of_export (declared : decl ∈ record.exports)
    (held : bindings.exports.get? decl.name = some i) :
    (bindings.given record.kind).get? (decl.binding record.kind) = some i := by
  obtain ⟨other, member, same, found⟩ := shares.stands decl.name i held
  rwa [fits.export_unique member declared same] at found

/-- The binding that an export makes has the slot of the export. -/
private theorem local_of_export (declared : decl ∈ record.exports)
    (binds : decl.Binds record.kind name) (held : bindings.exports.get? decl.name = some i) :
    bindings.locals.get? name = some i := by
  have found := given_of_export fits shares declared held
  have script := fits.script_of_binds declared binds
  rw [script] at binds found
  rwa [ExportDecl.binding_of_binds binds] at found

include opens gives in
/-- Every own binding is made by an export. -/
private theorem export_of_local (held : bindings.locals.get? name = some i) :
    ∃ decl ∈ record.exports, decl.Binds record.kind name ∧
      bindings.exports.get? decl.name = some i := by
  obtain ⟨decl, declared, binds⟩ := opens.owned name i held
  obtain ⟨j, found⟩ := gives decl declared (ExportDecl.direct_of_binds binds)
  have same := local_of_export fits shares declared binds found
  exact ⟨decl, declared, binds, found.trans (same.symm.trans held)⟩

include given opens gives in
/-- A slot that is new is that of an export. -/
private theorem export_of_new {slot : Slot} (known : s.slot? i = some slot)
    (new : base.slot? i = none) : ∃ decl ∈ record.exports, bindings.exports.get? decl.name = some i := by
  rcases given.covered i slot known with old | ⟨name, found⟩
  · rw [new] at old
    cases old
  cases kind : record.kind with
  | script =>
    rw [kind] at found
    obtain ⟨decl, declared, _, held⟩ := export_of_local fits shares opens gives found
    exact ⟨decl, declared, held⟩
  | binary =>
    rw [kind] at found
    obtain ⟨decl, declared, rfl, _⟩ := given.direct name i found
    exact ⟨decl, declared, found⟩

include given opens in
/-- What the slot of an export is. -/
private theorem filled_of_export (declared : decl ∈ record.exports)
    (held : bindings.exports.get? decl.name = some i) : ∃ content, s.slot? i =
        some ⟨identity, decl.binding record.kind, decl.kind, decl.type, content⟩ ∧
      s.Begins ⟨base.environments.size⟩ record (decl.binding record.kind) content ∧
      (record.kind = .binary → content = .uninitialized) := by
  have found := given_of_export fits shares declared held
  cases kind : record.kind with
  | script =>
    rw [kind] at found
    obtain ⟨content, there, begins⟩ := opens.slots _ i found
    obtain ⟨untyped, value⟩ := fits.untyped kind declared
    exact ⟨content, by rw [untyped, value, there], begins, nofun⟩
  | binary =>
    obtain ⟨other, declared', same, _, filled⟩ := given.direct _ i held
    obtain rfl := fits.export_unique declared' declared same
    rw [ExportDecl.binding_binary]
    refine ⟨_, filled kind, .untouched fun other declared _ code source => ?_, fun _ => rfl⟩
    have script := fits.script_of_declaration declared source
    rw [kind] at script
    cases script

include given opens gives in
private theorem layout_of (slots : ∀ i slot, base.slot? i = some slot → s.slot? i = some slot)
    (made : ∀ name i, bindings.exports.get? name = some i → base.slot? i = none)
    (bears : environment.identity = identity) (kind : environment.kind = record.kind)
    (locals : environment.locals = bindings.locals) (exports : environment.exports = bindings.exports) :
    base.Layout s identity record environment := by
  refine ⟨bears, kind, fun name => ⟨fun ⟨i, held⟩ => ?_, ?_⟩, ?_, fun decl declared i held => ?_,
    fun binary decl declared => ?_, fun name i => ⟨fun held => ?_, ?_⟩, slots,
    fun i slot known => ⟨fun new => ?_, ?_⟩⟩
  · obtain ⟨decl, declared, same, direct, _⟩ := given.direct name i (exports ▸ held)
    exact ⟨decl, declared, same, direct⟩
  · rintro ⟨decl, declared, rfl, direct⟩
    exact exports ▸ gives decl declared direct
  · rw [exports]
    exact fun decl declared decl' declared' i i' held held' =>
      shares.eq_iff fits declared declared' held held'
  · rw [exports] at held
    obtain ⟨content, there, begins, _⟩ := filled_of_export fits shares given opens declared held
    exact ⟨content, there, begins⟩
  · obtain ⟨i, held⟩ := gives decl declared (fits.direct binary declared)
    obtain ⟨content, there, _, empty⟩ := filled_of_export fits shares given opens declared held
    rw [empty binary, binary, ExportDecl.binding_binary] at there
    refine ⟨i, exports ▸ held, there, fun other held' => ?_⟩
    rw [exports] at held'
    obtain ⟨decl', declared', rfl, _⟩ := given.direct other i held'
    have same := (shares.eq_iff fits declared' declared held' held).mp rfl
    rwa [binary, ExportDecl.binding_binary, ExportDecl.binding_binary] at same
  · rw [locals] at held
    rw [exports]
    exact export_of_local fits shares opens gives held
  · rintro ⟨decl, declared, binds, held⟩
    rw [exports] at held
    rw [locals]
    exact local_of_export fits shares declared binds held
  · rw [exports]
    exact export_of_new fits shares given opens gives known new
  · rintro ⟨decl, _, held⟩
    exact made _ i (exports ▸ held)

end Allocation

/-- Before any export gets its slot there is nothing but the functions that are declared. -/
private theorem given_start (s : Store κ) (identity : String) (fits : record.WellFormed) :
    s.Given (record.exports.foldl (declareFunction identity ⟨s.environments.size⟩) (.empty, s)).2
      identity record.kind []
      ⟨(record.exports.foldl (declareFunction identity ⟨s.environments.size⟩) (.empty, s)).1,
        .empty⟩ := by
  obtain ⟨named, covered⟩ :=
    covered_declareFunctions s identity ⟨s.environments.size⟩ fits.exportsDistinct
  refine ⟨fun name i held => (by cases held), fun i slot known => ?_⟩
  rcases covered i slot known with old | ⟨name, held⟩
  · exact .inl old
  obtain ⟨decl, declared, _, code, source⟩ := named name i held
  rw [fits.script_of_declaration declared source]
  exact .inr ⟨name, held⟩

/-- A module gets its slots as they are laid out. -/
theorem layout_allocate (s : Store κ) (identity : String) (fits : record.WellFormed) :
    ∃ environment,
      (s.allocate identity record).2.environment? ⟨s.environments.size⟩ = some environment ∧
      s.Layout (s.allocate identity record).2 identity record environment := by
  obtain ⟨home, environment, joins⟩ := s.allocate_joins identity fits
  have here := joins.environments ⟨s.environments.size⟩
  rw [if_pos rfl] at here
  refine ⟨environment, here, ?_⟩
  obtain ⟨s₁, environment', made, adds, _, _, _, own, exports⟩ := allocate_makes identity s fits
  obtain ⟨s₂, environment'', made', _, houses, _⟩ := allocate_spec s identity fits
  have declares := apart_declareFunctions identity ⟨s.environments.size⟩ (.empty s) record.exports
  have shares := shares_exportSlots identity fits (fun _ member => member) (.start declares)
  have given := given_exportSlots fits (fun _ member => member) fits.exportsDistinct
    (given_start s identity fits)
  -- All that is known is known of one environment, the one under the new handle.
  have known : (s.allocate identity record).2.environment? (s.allocate identity record).1 = some _ :=
    Array.getElem?_push_size
  have known' : (s.allocate identity record).2.environment? (s.allocate identity record).1 =
      some environment' := by
    rw [made]
    exact Array.getElem?_push_size
  have known'' : (s.allocate identity record).2.environment? (s.allocate identity record).1 =
      some environment'' := by
    rw [made']
    exact Array.getElem?_push_size
  rw [home, here] at known known' known''
  obtain rfl := Option.some.inj known'
  obtain rfl := Option.some.inj known''
  obtain rfl := Option.some.inj known
  refine layout_of fits shares ⟨given.direct, given.covered⟩ joins.opens houses.given joins.slots
    (fun name i held => ?_) rfl rfl rfl rfl
  obtain ⟨decl, declared, rfl, _⟩ := given.direct name i held
  have found := given_of_export fits shares declared held
  by_contra there
  obtain ⟨slot, there⟩ := Option.ne_none_iff_exists'.mp there
  cases kind : record.kind with
  | script =>
    have slots : ∀ {bindings : Bindings}, bindings.given record.kind = bindings.locals := by
      simp [Bindings.given, kind]
    rw [slots] at found
    exact (own i (mem_values_of_get? found)).not_known there
  | binary => exact ((exports kind).2 i (mem_values_of_get? held)).not_known there

/-! ## Another order -/

/-- What two slots begin with is alike: nothing, or functions that are the same but for their
handles. -/
inductive Alike (s s' : Store κ) : SlotContent → SlotContent → Prop
  | untouched : Alike s s' .uninitialized .uninitialized
  | declared {f f' : FunctionId} {function : Function κ} (held : s.function f = .ok function)
      (held' : s'.function f' = .ok function) : Alike s s' (.live (.function f)) (.live (.function f'))

/-- Two modules have slots in the same places, the ones those of the others under other
handles. -/
structure SameLayout (s s' : Store κ) (environment environment' : Environment)
    (rename : SlotId → SlotId) : Prop where
  exports : ∀ name, environment'.exports.get? name = (environment.exports.get? name).map rename
  locals : ∀ name, environment'.locals.get? name = (environment.locals.get? name).map rename
  apart : ∀ name name' i i', environment.exports.get? name = some i →
    environment.exports.get? name' = some i' → rename i = rename i' → i = i'
  slots : ∀ name i, environment.exports.get? name = some i → ∃ slot content',
    s.slot? i = some slot ∧ s'.slot? (rename i) = some { slot with content := content' } ∧
      s.Alike s' slot.content content'

/-- What a binding begins with is settled by what its module declares. -/
theorem Begins.alike {e : EnvironmentId} {name : String} {content content' : SlotContent}
    (fits : record.WellFormed) (begins : s.Begins e record name content)
    (begins' : s'.Begins e record name content') : s.Alike s' content content' := by
  cases begins with
  | declared declared named source function =>
    cases begins' with
    | declared declared' named' source' function' =>
      obtain rfl := fits.export_unique declared declared' (named.trans named'.symm)
      cases source.symm.trans source'
      exact .declared function function'
    | untouched none => exact absurd source (none _ declared named _)
  | untouched none =>
    cases begins' with
    | declared declared' named' source' _ => exact absurd source' (none _ declared' named' _)
    | untouched _ => exact .untouched

/-- Slots are laid out for the exports that there are, in whatever order. -/
theorem Layout.reorder {environment : Environment} {record' : Record κ}
    (layout : base.Layout s identity record' environment) (kind : record'.kind = record.kind)
    (same : record'.exports.Perm record.exports) : base.Layout s identity record environment := by
  have members (decl : ExportDecl κ) : decl ∈ record.exports ↔ decl ∈ record'.exports :=
    same.mem_iff.symm
  refine ⟨layout.bears, layout.kind.trans kind, fun name => ?_, ?_, fun decl declared i held => ?_, ?_,
    fun name i => ?_, layout.kept, fun i slot known => ?_⟩
  · simpa only [members] using layout.exported name
  · simpa only [members, kind] using layout.shared
  · obtain ⟨content, there, begins⟩ := layout.filled decl ((members decl).mp declared) i held
    rw [kind] at there begins
    refine ⟨content, there, ?_⟩
    cases begins with
    | declared declared named source function =>
      exact .declared ((members _).mpr declared) named source function
    | untouched none => exact .untouched fun other member => none other ((members other).mp member)
  · simpa only [members, kind] using layout.separate
  · simpa only [members, kind] using layout.owned name i
  · simpa only [members] using layout.fresh i slot known

/-- What is laid out for the same exports differs in handles only. -/
theorem Layout.sameLayout {base' : Store κ} {environment environment' : Environment}
    (fits : record.WellFormed) (layout : base.Layout s identity record environment)
    (layout' : base'.Layout s' identity record environment')
    (homes : base'.environments.size = base.environments.size) :
    ∃ rename, s.SameLayout s' environment environment' rename := by
  have origin {name : String} {i : SlotId} (held : environment.exports.get? name = some i) :
      ∃ decl ∈ record.exports, decl.name = name ∧ ∃ i', environment'.exports.get? name = some i' := by
    obtain ⟨decl, declared, named, direct⟩ := (layout.exported name).mp ⟨i, held⟩
    exact ⟨decl, declared, named, (layout'.exported name).mpr ⟨decl, declared, named, direct⟩⟩
  -- A slot goes to the slot that any export with it has on the other side.
  have goes : ∀ i, ∃ i', ∀ name, environment.exports.get? name = some i →
      environment'.exports.get? name = some i' := by
    intro i
    by_cases used : ∃ name, environment.exports.get? name = some i
    · obtain ⟨name, held⟩ := used
      obtain ⟨decl, declared, rfl, i', held'⟩ := origin held
      refine ⟨i', fun other also => ?_⟩
      obtain ⟨decl₁, declared₁, rfl, j, found⟩ := origin also
      have shared := (layout.shared _ declared _ declared₁ i i held also).mp rfl
      rw [found, (layout'.shared _ declared _ declared₁ i' j held' found).mpr shared]
    · exact ⟨i, fun name held => absurd ⟨name, held⟩ used⟩
  obtain ⟨rename, goes⟩ := Classical.axiomOfChoice goes
  have exports (name : String) :
      environment'.exports.get? name = (environment.exports.get? name).map rename := by
    cases held : environment.exports.get? name with
    | some i => exact goes i name held
    | none =>
      by_contra present
      obtain ⟨i', held'⟩ := Option.ne_none_iff_exists'.mp present
      obtain ⟨i, found⟩ := (layout.exported name).mpr ((layout'.exported name).mp ⟨i', held'⟩)
      rw [held] at found
      cases found
  refine ⟨rename, exports, fun name => ?_, fun name name' i i' held held' same => ?_,
    fun name i held => ?_⟩
  · cases held : environment.locals.get? name with
    | some i =>
      obtain ⟨decl, declared, binds, found⟩ := (layout.owned name i).mp held
      exact (layout'.owned name (rename i)).mpr ⟨decl, declared, binds, goes i _ found⟩
    | none =>
      by_contra present
      obtain ⟨i', held'⟩ := Option.ne_none_iff_exists'.mp present
      obtain ⟨decl, declared, binds, found'⟩ := (layout'.owned name i').mp held'
      obtain ⟨i, found⟩ := (layout.exported decl.name).mpr
        ((layout'.exported decl.name).mp ⟨i', found'⟩)
      rw [(layout.owned name i).mpr ⟨decl, declared, binds, found⟩] at held
      cases held
  · obtain ⟨decl, declared, rfl, _⟩ := origin held
    obtain ⟨decl', declared', rfl, _⟩ := origin held'
    have found := goes i _ held
    rw [same] at found
    have shared := (layout'.shared _ declared _ declared' _ _ found (goes i' _ held')).mp rfl
    exact (layout.shared _ declared _ declared' i i' held held').mpr shared
  · obtain ⟨decl, declared, rfl, _⟩ := origin held
    obtain ⟨content, there, begins⟩ := layout.filled decl declared i held
    obtain ⟨content', there', begins'⟩ := layout'.filled decl declared _ (goes i _ held)
    rw [homes] at begins'
    exact ⟨_, content', there, there', begins.alike fits begins'⟩

/-- Whatever the order of its exports, a module gets the slots that are laid out for them, and
from one order to another they differ in their handles only. -/
theorem allocate_reordered (s : Store κ) (identity : String) {record : Record κ}
    (passed : record.validate = .ok ()) {exports : List (ExportDecl κ)}
    (same : exports.Perm record.exports) :
    ∃ environment environment' rename,
      (s.allocate identity record).2.environment? ⟨s.environments.size⟩ = some environment ∧
      (s.allocate identity { record with exports }).2.environment? ⟨s.environments.size⟩ =
        some environment' ∧
      s.Layout (s.allocate identity record).2 identity record environment ∧
      s.Layout (s.allocate identity { record with exports }).2 identity record environment' ∧
      (s.allocate identity record).2.SameLayout (s.allocate identity { record with exports }).2
        environment environment' rename := by
  have fits := Record.wellFormed_of_validate passed
  obtain ⟨environment, there, layout⟩ := s.layout_allocate identity fits
  obtain ⟨environment', there', layout'⟩ := s.layout_allocate identity (fits.reorder same)
  have layout' : s.Layout _ identity record environment' := layout'.reorder rfl same
  obtain ⟨rename, sameLayout⟩ := layout.sameLayout fits layout' rfl
  exact ⟨environment, environment', rename, there, there', layout, layout', sameLayout⟩

/-- A function with an alias that stands before it. -/
def aliased : Record Unit where
  requested := []
  imports := []
  exports := [⟨"g", .value, .none, .own "f"⟩, ⟨"f", .value, .none, .declaration ()⟩]
  stars := []
  body := .script none

/-- Declared the other way round, the function and its alias have one slot just as well. -/
theorem allocate_reordered_aliased : ∃ environment i,
    ((Store.empty : Store Unit).allocate "m" { aliased with exports := aliased.exports.reverse
      }).2.environment? ⟨0⟩ = some environment ∧
    environment.exports.get? "f" = some i ∧ environment.exports.get? "g" = some i := by
  obtain ⟨_, environment, _, _, there, _, layout, _⟩ := allocate_reordered (Store.empty : Store Unit)
    "m" (rfl : aliased.validate = .ok ()) (List.reverse_perm aliased.exports)
  have declared : (⟨"f", .value, .none, .declaration ()⟩ : ExportDecl Unit) ∈ aliased.exports := by
    simp [aliased]
  have also : (⟨"g", .value, .none, .own "f"⟩ : ExportDecl Unit) ∈ aliased.exports := by
    simp [aliased]
  obtain ⟨i, held⟩ := (layout.exported "f").mpr ⟨_, declared, rfl, nofun⟩
  obtain ⟨i', held'⟩ := (layout.exported "g").mpr ⟨_, also, rfl, nofun⟩
  obtain rfl := (layout.shared _ declared _ also i i' held held').mpr rfl
  exact ⟨environment, i, there, held, held'⟩

end Store
end MixedModules
