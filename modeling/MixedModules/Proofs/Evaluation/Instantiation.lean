import MixedModules.Proofs.Evaluation.Failure
import MixedModules.Proofs.Evaluation.Permanence
import MixedModules.Proofs.Evaluation.Segments

/-! Validation is enough for instantiation.

The check of a record works on declared types, under the names of definitions and imports. The
instantiation works on values, which come to stand under these names one after the other. At
every step each name that has its entity has one of the declared type, so what the check has let
through is found and is of the right kind. What is left to fail are sizes that cannot be had,
segments that do not fit, and the code of the start function. -/
namespace MixedModules

variable {κ σ : Type} {homes : EnvironmentId → Record κ → Prop} {e : EnvironmentId}
  {environment : Environment} {record : Record κ} {body : BinaryBody κ} {names : List String}
  {name : String}

namespace Store

variable {s s' : Store κ} {type : TypeSig} {value : Value}

/-! ## What a type says of a value -/

theorem Conforms.global {type : GlobalType} (conforms : s.Conforms (.numeric type) value) :
    ∃ g global, value = .global g ∧ s.global g = .ok global ∧ global.type = type := by
  cases value <;> try cases conforms
  rename_i g global known
  exact ⟨g, global, rfl, known.1, known.2⟩

theorem Conforms.memory (conforms : s.Conforms type value) (kind : type.bindingKind = .memory) :
    ∃ m memory, value = .memory m ∧ s.memory m = .ok memory := by
  unfold Conforms at conforms
  split at conforms
  · cases kind
  · obtain ⟨memory, known, _⟩ := conforms
    exact ⟨_, memory, rfl, known⟩
  · cases kind
  · cases kind
  · exact conforms.elim

theorem Conforms.table (conforms : s.Conforms type value) (kind : type.bindingKind = .table) :
    ∃ t table, value = .table t ∧ s.table t = .ok table := by
  unfold Conforms at conforms
  split at conforms
  · cases kind
  · cases kind
  · obtain ⟨table, known, _⟩ := conforms
    exact ⟨_, table, rfl, known⟩
  · cases kind
  · exact conforms.elim

theorem Conforms.function (conforms : s.Conforms type value) (kind : type.bindingKind = .function) :
    ∃ f function signature, type = .function signature ∧ value = .function f ∧
      s.function f = .ok function ∧ function.signature? = some signature := by
  unfold Conforms at conforms
  split at conforms
  · cases kind
  · cases kind
  · cases kind
  · obtain ⟨function, known, signed⟩ := conforms
    exact ⟨_, function, _, rfl, rfl, known, signed⟩
  · exact conforms.elim

/-! ## Names that have their entities -/

/-- The module of `e` has an entity under each of these names, in a store in which everything
is as declared. -/
structure Equips (homes : EnvironmentId → Record κ → Prop) (e : EnvironmentId)
    (environment : Environment) (s : Store κ) (names : List String) : Prop where
  sound : s.Sound homes
  intact : s.Intact
  shows : s.Shows e environment
  entities : ∀ name ∈ names, ∃ value, s.readEntity e name = .ok value

namespace Equips

theorem mono {names' : List String} (equips : Equips homes e environment s names)
    (less : names' ⊆ names) : Equips homes e environment s names' :=
  { equips with entities := fun name member => equips.entities name (less member) }

/-- A step that leaves the environment alone. -/
theorem step (equips : Equips homes e environment s names) (safe : s.Safe homes s')
    (intact : s.Intact → s'.Intact) (same : s'.environment? e = s.environment? e) :
    Equips homes e environment s' names := by
  refine ⟨safe.2 equips.sound, intact equips.intact, equips.shows.kept safe.1, fun name member => ?_⟩
  obtain ⟨value, read⟩ := equips.entities name member
  exact ⟨value, (readEntity_congr same).trans read⟩

theorem sameBindings (equips : Equips homes e environment s names) (same : s.SameBindings s') :
    Equips homes e environment s' names :=
  equips.step (.of_sameBindings same) same.intact (same.environment?_eq e)

theorem modifySlot {i : SlotId} {change : Slot → Slot} (equips : Equips homes e environment s names)
    (safe : s.Safe homes (s.modifySlot i change)) :
    Equips homes e environment (s.modifySlot i change) names :=
  equips.step safe (fun intact => intact.grows rfl rfl safe.1) rfl

theorem perform {o : Operation κ} {a : o.Answer} (equips : Equips homes e environment s names)
    (ran : o.perform s = .ok (a, s')) : Equips homes e environment s' names := by
  by_cases assigns : ∃ e name value, o = .assign e name value
  · have safe := (respected_safe homes).operations o s a s' ran
    obtain ⟨_, _, _, rfl⟩ := assigns
    obtain ⟨_, _, _, _, rfl⟩ := assign_eq_ok ran
    exact equips.modifySlot safe
  · exact equips.sameBindings
      (sameBindings_perform ran fun e name value same => assigns ⟨e, name, value, same⟩)

/-- One more name gets its entity. -/
theorem install (equips : Equips homes e environment s names)
    (safe : s.Safe homes (s'.install e name value)) (intact : s.Intact → s'.Intact)
    (same : s'.environment? e = s.environment? e) :
    Equips homes e environment (s'.install e name value) (names ++ [name]) := by
  obtain ⟨entities, present⟩ := equips.shows
  refine ⟨safe.2 equips.sound, (intact equips.intact).grows rfl rfl (grows_install ..),
    equips.shows.kept safe.1, fun other member => ?_⟩
  rw [readEntity_install (same.trans present)]
  split
  · exact ⟨value, rfl⟩
  · next apart =>
    rcases List.mem_append.mp member with earlier | only
    · obtain ⟨held, read⟩ := equips.entities other earlier
      exact ⟨held, (readEntity_congr same).trans read⟩
    · exact absurd (List.mem_singleton.mp only).symm apart

/-- An object is made and becomes the entity of a name. -/
theorem define (equips : Equips homes e environment s names) (same : s.SameBindings s')
    (safe : s.Safe homes (s'.install e name value)) :
    Equips homes e environment (s'.install e name value) (names ++ [name]) :=
  equips.install safe same.intact (same.environment?_eq e)

/-- A binary module that observes an import gets an entity for it. -/
theorem observe {b : ImportBinding} (equips : Equips homes e environment s names)
    (home : homes e record) (unique : ∀ other, homes e other → other = record)
    (fits : record.WellFormed) (binary : record.kind = .binary)
    (member : b ∈ environment.imports.values)
    (ran : observeImport e environment b s = .ok ((), s')) :
    Equips homes e environment s' (names ++ [b.localName]) := by
  obtain ⟨entities, present⟩ := equips.shows
  have houses := equips.sound.houses e record _ home present
  have kind : environment.kind = record.kind := houses.kind
  have safe : s.Safe homes s' :=
    safe_observeImport equips.sound (houses.imports b member) fits unique kind ran
  cases importStep_of_observeImport ran with
  | left script | captured script => cases script.symm.trans (kind.trans binary)
  | installed => exact equips.install safe (fun intact => intact) rfl
  | checked _ _ _ observes =>
    have same := (observe_spec observes).1
    exact equips.install safe (fun intact => (same.intact intact).grows rfl rfl
      (grows_modifySlot (setSnapshot_content _)))
      ((environment?_modifySlot ..).trans (same.environment?_eq e))

end Equips

/-! ## Definitions that are made -/

section Made

variable (equips : Equips homes e environment s names)
  (unique : ∀ other, homes e other → other = record) (shape : record.body = .binary body)

include equips unique shape

theorem Equips.defineGlobal {d : GlobalDef} (member : d ∈ body.globals)
    (ran : Store.defineGlobal e d s = .ok ((), s')) :
    Equips homes e environment s' (names ++ [d.name]) := by
  have safe := safe_defineGlobal unique shape member ran
  obtain ⟨initial, g, s₁, made, rfl⟩ := defineGlobal_eq_ok ran
  exact equips.define (sameBindings_newGlobal made).1 safe

theorem Equips.defineMemory {d : SizedDef} (member : d ∈ body.memories)
    (ran : Store.defineMemory e d s = .ok ((), s')) :
    Equips homes e environment s' (names ++ [d.name]) := by
  have safe := safe_defineMemory unique shape member ran
  obtain ⟨⟨m, s₁⟩, made, ran⟩ := bind_eq_ok ran
  cases ran
  exact equips.define (sameBindings_newMemory made).1 safe

theorem Equips.defineTable {d : SizedDef} (member : d ∈ body.tables)
    (ran : Store.defineTable e d s = .ok ((), s')) :
    Equips homes e environment s' (names ++ [d.name]) := by
  have safe := safe_defineTable unique shape member ran
  obtain ⟨⟨t, s₁⟩, made, ran⟩ := bind_eq_ok ran
  cases ran
  exact equips.define (sameBindings_newTable made).1 safe

theorem Equips.defineFunction {d : FuncDef κ} (member : d ∈ body.functions)
    (ran : Store.defineFunction e d s = .ok ((), s')) :
    Equips homes e environment s' (names ++ [d.name]) := by
  have safe := safe_defineFunction unique shape member ran
  obtain ⟨entities, present⟩ := equips.shows
  cases ran
  refine equips.define (sameBindings_addFunction s d.name ?_ nofun) safe
  rintro _ _ _ ⟨⟩
  exact ⟨_, present⟩

end Made

/-- A memory is refused for its limits only. -/
theorem defineMemory_eq_error {d : SizedDef} {reason : EvalError}
    (ran : defineMemory e d s = .error reason) :
    ∃ fault, Memory.new d.limits = .error fault ∧ reason = .type fault := by
  unfold defineMemory newMemory at ran
  cases made : Memory.new d.limits <;> simp only [made] at ran <;> cases ran
  exact ⟨_, rfl, rfl⟩

/-- So is a table. -/
theorem defineTable_eq_error {d : SizedDef} {reason : EvalError}
    (ran : defineTable e d s = .error reason) :
    ∃ fault, Table.new d.limits = .error fault ∧ reason = .type fault := by
  unfold defineTable newTable at ran
  cases made : Table.new d.limits <;> simp only [made] at ran <;> cases ran
  exact ⟨_, rfl, rfl⟩

/-- All names of a module are those of its imports and of its definitions, kind by kind. -/
theorem entityTypes_names (shape : record.body = .binary body) : record.entityTypes.map (·.1) ⊆
    record.imports.map (·.localName) ++ body.globals.map GlobalDef.name ++
      body.memories.map SizedDef.name ++ body.tables.map SizedDef.name ++
      body.functions.map FuncDef.name := by
  unfold Record.entityTypes
  rw [shape]
  intro name
  simp only [BinaryBody.definitions, Record.importTypes, List.map_append, List.map_map,
    Function.comp_def, List.mem_append]
  tauto

/-! ## What is found -/

theorem readEntityAs_eq_ok {α : Type} {kind : BindingKind} {part : Value → Option α} {x : α}
    (read : s.readEntity e name = .ok value) (found : part value = some x) :
    s.readEntityAs kind part e name = .ok x := by
  obtain ⟨environment, known, _⟩ := readEntity_eq_ok read
  simp only [readEntityAs, environment_eq_ok.mpr known, read, bind, Except.bind, found]

section Found

variable (equips : Equips homes e environment s names) (home : homes e record)
  (fits : record.WellFormed)

include equips home fits

/-- The entity of a name is of the type that is declared for it. -/
theorem Equips.entity (member : name ∈ names) (declared : (name, type) ∈ record.entityTypes) :
    ∃ value, s.readEntity e name = .ok value ∧ s.Conforms type value := by
  obtain ⟨value, read⟩ := equips.entities name member
  obtain ⟨environment, known, held⟩ := readEntity_eq_ok read
  have houses := equips.sound.houses e record environment home known
  obtain ⟨type', declared', conforms⟩ := houses.entities name value held
  exact ⟨value, read, entityType_unique fits declared declared' ▸ conforms⟩

/-- A global begins with a number of its own type. -/
theorem Equips.defineGlobal_ne_error {d : GlobalDef} {reason : EvalError}
    (binary : record.kind = .binary) (inside : record.imports.map (·.localName) ⊆ names)
    (initial : record.InitialFits d) : Store.defineGlobal e d s ≠ .error reason := by
  have starts (value : Raw) (number : value.type = d.type.value) :
      newGlobal d.type value s =
        .ok (⟨s.globals.size⟩, { s with globals := s.globals.push ⟨d.type, value⟩ }) := by
    simp only [newGlobal, Global.new, if_pos number]
  unfold Record.InitialFits at initial
  unfold Store.defineGlobal
  cases start : d.initial with
  | constant value =>
    rw [start] at initial
    simp only [pure, Except.pure, bind, Except.bind, starts value initial]
    nofun
  | imported localName =>
    rw [start] at initial
    obtain ⟨type, found, number⟩ := initial
    obtain ⟨decl, declared, same⟩ := List.mem_map.mp (mem_of_typeOf? found)
    obtain ⟨rfl, typed⟩ := Prod.mk.inj same
    have entity := mem_entityTypes_of_import binary declared
    rw [typed] at entity
    obtain ⟨value, read, conforms⟩ :=
      equips.entity home fits (inside (List.mem_map_of_mem declared)) entity
    obtain ⟨g, global, rfl, known, rfl⟩ := conforms.global
    have there := starts global.value ((equips.intact.numbers g global known).trans number)
    simp only [readEntityAs_eq_ok read (show Value.global? (.global g) = some g from rfl), known, pure,
      Except.pure, bind, Except.bind, there]
    nofun

variable (shape : record.body = .binary body)
  (complete : record.entityTypes.map (·.1) ⊆ names)

include shape complete

/-- What is referred to is found, and is of the kind that it must be. -/
theorem Equips.referred {kind : BindingKind} (refers : record.Refers body kind name) :
    ∃ type value, type.bindingKind = kind ∧ s.readEntity e name = .ok value ∧
      s.Conforms type value := by
  obtain ⟨type, found, kind⟩ := refers
  have declared : (name, type) ∈ record.entityTypes := by
    unfold Record.entityTypes
    rw [shape]
    exact mem_of_typeOf? found
  obtain ⟨value, read, conforms⟩ :=
    equips.entity home fits (complete (List.mem_map_of_mem declared)) declared
  exact ⟨type, value, kind, read, conforms⟩

theorem Equips.memory (refers : record.Refers body .memory name) : ∃ m memory,
    s.readEntityAs .memory Value.memory? e name = .ok m ∧ s.memory m = .ok memory := by
  obtain ⟨type, value, kind, read, conforms⟩ := equips.referred home fits shape complete refers
  obtain ⟨m, memory, rfl, known⟩ := conforms.memory kind
  exact ⟨m, memory, readEntityAs_eq_ok read rfl, known⟩

theorem Equips.table (refers : record.Refers body .table name) : ∃ t table,
    s.readEntityAs .table Value.table? e name = .ok t ∧ s.table t = .ok table := by
  obtain ⟨type, value, kind, read, conforms⟩ := equips.referred home fits shape complete refers
  obtain ⟨t, table, rfl, known⟩ := conforms.table kind
  exact ⟨t, table, readEntityAs_eq_ok read rfl, known⟩

theorem Equips.function (refers : record.Refers body .function name) :
    ∃ f, s.readEntityAs .function Value.function? e name = .ok f := by
  obtain ⟨type, value, kind, read, conforms⟩ := equips.referred home fits shape complete refers
  obtain ⟨f, _, _, _, rfl, _⟩ := conforms.function kind
  exact ⟨f, readEntityAs_eq_ok read rfl⟩

end Found
end Store

namespace World

variable {w w' : World κ σ} {failed : EvalError → World κ σ → Prop}

/-! ## Definitions -/

/-- Definitions that are made one after the other add their names. -/
theorem ends_makes {δ : Type} {ds : List δ} {make : δ → Change κ Unit} (called : δ → String)
    (equips : w.store.Equips homes e environment names)
    (made : ∀ d ∈ ds, ∀ s s' names', Store.Equips homes e environment s names' →
      make d s = .ok ((), s') → Store.Equips homes e environment s' (names' ++ [called d]))
    (refused : ∀ d ∈ ds, ∀ w' : World κ σ, ∀ reason, w'.store.Equips homes e environment names →
      make d w'.store = .error reason → failed reason w') :
    Run.Ends (ds.forM fun d => change (make d)) w
      (fun _ w' => w'.store.Equips homes e environment (names ++ ds.map called)) failed := by
  apply Run.Ends.forM
  · simpa using equips
  rintro first d rest rfl w' here
  refine ends_change (fun _ s ran => ?_) fun reason ran => ?_
  · rw [List.map_append, ← List.append_assoc]
    exact made d (by simp) _ _ _ here ran
  · exact refused d (by simp) w' reason (here.mono (by simp)) ran

/-- The failure is that of a memory or a table that cannot be had with its limits. -/
def Refused (body : BinaryBody κ) (reason : EvalError) : Prop :=
  ∃ fault, reason = .type fault ∧ ((∃ d ∈ body.memories, Memory.new d.limits = .error fault) ∨
    ∃ d ∈ body.tables, Table.new d.limits = .error fault)

section Steps

variable (fits : record.WellFormed) (home : homes e record)
  (unique : ∀ other, homes e other → other = record) (shape : record.body = .binary body)

include fits home unique shape

/-- A binary module that has observed its imports has an entity for each. -/
theorem equips_observeImports (equips : w.store.Equips homes e environment [])
    (ran : observeImports e environment w = (some (.ok ()), w')) :
    w'.store.Equips homes e environment (environment.imports.values.map (·.localName)) := by
  have binary : record.kind = .binary := by simp [Record.kind, shape]
  have ends : (observeImports e environment).Ends w (fun _ w' => w'.store.Equips homes e environment
      ([] ++ environment.imports.values.map (·.localName))) fun _ _ => True :=
    ends_makes _ equips
      (fun b member _ _ _ equips ran => equips.observe home unique fits binary member ran)
      fun _ _ _ _ _ _ => trivial
  exact ends.done () w' ran

/-- The definitions of a module are made unless a size cannot be had. -/
theorem ends_definitions
    (equips : w.store.Equips homes e environment (record.imports.map (·.localName))) :
    (definitions e body).Ends w (fun _ w' =>
      w'.store.Equips homes e environment (record.entityTypes.map (·.1)))
      fun reason _ => Refused body reason := by
  have binary : record.kind = .binary := by simp [Record.kind, shape]
  unfold definitions
  refine .bind (ends_makes GlobalDef.name equips
    (fun d member _ _ _ equips ran => equips.defineGlobal unique shape member ran)
    fun d member w' reason equips ran => ?_) fun _ w₁ _ equips => ?_
  · exact absurd ran (equips.defineGlobal_ne_error home fits binary (List.Subset.refl _)
      ((fits.binary body shape).initials d member))
  refine .bind (ends_makes SizedDef.name equips
    (fun d member _ _ _ equips ran => equips.defineMemory unique shape member ran)
    fun d member w' reason equips ran => ?_) fun _ w₂ _ equips => ?_
  · obtain ⟨fault, refused, rfl⟩ := Store.defineMemory_eq_error ran
    exact ⟨fault, rfl, .inl ⟨d, member, refused⟩⟩
  refine .bind (ends_makes SizedDef.name equips
    (fun d member _ _ _ equips ran => equips.defineTable unique shape member ran)
    fun d member w' reason equips ran => ?_) fun _ w₃ _ equips => ?_
  · obtain ⟨fault, refused, rfl⟩ := Store.defineTable_eq_error ran
    exact ⟨fault, rfl, .inr ⟨d, member, refused⟩⟩
  refine (ends_makes FuncDef.name equips
    (fun d member _ _ _ equips ran => equips.defineFunction unique shape member ran)
    fun d member w' reason equips ran => ?_).mono (fun _ w' equips => ?_) fun _ _ no => no
  · cases ran
  · exact equips.mono (Store.entityTypes_names shape)

end Steps

/-! ## Segments -/

/-- The failure is a trap of a segment that does not fit. -/
def Misfit (identity : String) (reason : EvalError) : Prop :=
  ∃ cause, reason = .trap identity cause ∧ cause.Misfits

section Segments

variable {identity : String} (home : homes e record) (fits : record.WellFormed)
  (shape : record.body = .binary body)

include home fits shape

theorem ends_applyData {segment : DataSegment}
    (refers : record.Refers body .memory segment.memory)
    (equips : w.store.Equips homes e environment (record.entityTypes.map (·.1))) :
    (change (Store.applyData e identity segment)).Ends w
      (fun _ w' => w'.store.Equips homes e environment (record.entityTypes.map (·.1)))
      fun reason _ => Misfit identity reason := by
  refine ends_change (fun _ s ran => equips.sameBindings (Store.sameBindings_applyData ran))
    fun reason ran => ?_
  obtain ⟨m, memory, target, held⟩ := equips.memory home fits shape (List.Subset.refl _) refers
  obtain ⟨_, rfl⟩ := (Store.applyData_eq_error target held).mp ran
  exact ⟨_, rfl, trivial⟩

/-- One function is written into a table, which stays where it is. -/
theorem ends_applyElement {segment : ElementSegment} {t : TableId} {i : Nat}
    (refers : record.Refers body .function name)
    (ready : w.store.Equips homes e environment (record.entityTypes.map (·.1)) ∧
      ∃ table, w.store.table t = .ok table) :
    (change (Store.applyElement e identity segment t i name)).Ends w
      (fun _ w' => w'.store.Equips homes e environment (record.entityTypes.map (·.1)) ∧
        ∃ table, w'.store.table t = .ok table)
      fun reason _ => Misfit identity reason := by
  obtain ⟨equips, table, held⟩ := ready
  refine ends_change (fun _ s ran => ?_) fun reason ran => ?_
  · have same := Store.sameBindings_applyElement ran
    obtain ⟨table', there, _⟩ := same.grows.tables t table held
    exact ⟨equips.sameBindings same, table', there⟩
  by_cases beyond : Store.indexBound ≤ segment.offset + i
  · simp only [Store.applyElement, if_pos beyond, bind, Except.bind] at ran
    cases ran
    exact ⟨_, rfl, trivial⟩
  · obtain ⟨f, named⟩ := equips.function home fits shape (List.Subset.refl _) refers
    obtain ⟨_, rfl⟩ := (Store.applyElement_eq_error (by omega) named held).mp ran
    exact ⟨_, rfl, trivial⟩

theorem ends_applyElements {segment : ElementSegment}
    (refers : record.Refers body .table segment.table)
    (functions : ∀ name ∈ segment.functions, record.Refers body .function name)
    (equips : w.store.Equips homes e environment (record.entityTypes.map (·.1))) :
    (applyElements e identity segment).Ends w
      (fun _ w' => w'.store.Equips homes e environment (record.entityTypes.map (·.1)))
      fun reason _ => Misfit identity reason := by
  obtain ⟨t, table, target, held⟩ := equips.table home fits shape (List.Subset.refl _) refers
  have rows : Run.Ends (segment.functions.zipIdx.forM fun entry =>
      change (Store.applyElement e identity segment t entry.2 entry.1)) (w.become w.store)
      (fun _ w' => w'.store.Equips homes e environment (record.entityTypes.map (·.1)) ∧
        ∃ table, w'.store.table t = .ok table) fun reason _ => Misfit identity reason :=
    .forM_kept ⟨equips, table, held⟩ fun entry member w₁ ready => ends_applyElement home fits shape
      (functions entry.1 (List.fst_mem_of_mem_zipIdx member)) ready
  exact ends_reading target (rows.mono (fun _ _ done => done.1) fun _ _ misfit => misfit)

/-- Segments are applied up to one that does not fit. -/
theorem ends_segments
    (equips : w.store.Equips homes e environment (record.entityTypes.map (·.1))) :
    (segments e identity body.data body.elements).Ends w
      (fun _ w' => w'.store.Equips homes e environment (record.entityTypes.map (·.1)))
      fun reason _ => Misfit identity reason := by
  have binary := fits.binary body shape
  have data : Run.Ends (body.data.forM fun segment => change (Store.applyData e identity segment)) w
      (fun _ w' => w'.store.Equips homes e environment (record.entityTypes.map (·.1)))
      fun reason _ => Misfit identity reason :=
    .forM_kept equips fun segment member w₁ equips =>
      ends_applyData home fits shape (binary.data segment member) equips
  unfold segments
  refine data.bind fun _ w₁ _ equips => .forM_kept equips fun segment member w₂ equips => ?_
  obtain ⟨table, functions⟩ := binary.elements segment member
  exact ends_applyElements home fits shape table functions equips

end Segments

/-! ## The start function -/

/-- A function that takes nothing and gives nothing ends with a failure: its own code fails, or
gives numbers all the same, or the function for which an adapter stands fails. -/
inductive Raises (embedder : Embedder κ σ) (inner : Calls κ σ) (f : FunctionId) (w : World κ σ) :
    EvalError → World κ σ → Prop
  | code {name : String} {code : κ} {home : EnvironmentId} {reason : EvalError} {w' : World κ σ}
      (known : w.store.function f = .ok ⟨name, .binary ⟨[], []⟩ code home⟩)
      (failed : (embedder.binary code home []).run inner w = (some (.error reason), w')) :
      Raises embedder inner f w reason w'
  | results {name : String} {code : κ} {home : EnvironmentId} {numbers : List Raw} {w' : World κ σ}
      (known : w.store.function f = .ok ⟨name, .binary ⟨[], []⟩ code home⟩)
      (ran : (embedder.binary code home []).run inner w = (some (.ok numbers), w'))
      (given : numbers ≠ []) : Raises embedder inner f w (.type (.resultTypes name)) w'
  | target {name : String} {target : FunctionId} {reason : EvalError} {w' : World κ σ}
      (known : w.store.function f = .ok ⟨name, .adapter ⟨[], []⟩ target⟩)
      (failed : inner.call target [] w = (some (.error reason), w')) :
      Raises embedder inner f w reason w'

theorem raises_of_invokeOver {embedder : Embedder κ σ} {inner : Calls κ σ} {f : FunctionId}
    {function : Function κ} {reason : EvalError} (intact : w.store.Intact)
    (known : w.store.function f = .ok function) (signed : function.signature? = some ⟨[], []⟩)
    (failed : Calls.invokeOver embedder inner f [] w = (some (.error reason), w')) :
    Raises embedder inner f (w.become w.store) reason w' := by
  unfold Calls.invokeOver at failed
  rw [Run.bind_apply, reading_apply known] at failed
  obtain ⟨name, callable⟩ := function
  cases callable with
  | script | host => cases signed
  | binary type code home =>
    cases signed
    obtain ⟨environment, present⟩ := intact.homes f _ _ code home known rfl
    have there : ((w.become w.store).store.environment? home).isNone = false := by
      simp [World.become, present]
    simp only [typesMatch, Calls.requireHome, List.map_nil, beq_self_eq_true, Bool.not_true,
      Bool.false_eq_true, if_false, Run.bind_apply, Run.get_apply, there, Run.pure_apply] at failed
    rcases ran : (embedder.binary code home []).run inner (w.become w.store) with
      ⟨_ | _ | numbers, w₁⟩ <;> simp only [ran] at failed
    · cases failed
    · cases failed
      exact .code known ran
    · cases numbers with
      | nil => cases failed
      | cons number rest =>
        cases failed
        exact .results known ran (List.cons_ne_nil number rest)
  | adapter type target =>
    cases signed
    simp only [typesMatch, List.map_nil, beq_self_eq_true, Bool.not_true, Bool.false_eq_true, if_false,
      Run.bind_apply] at failed
    rcases ran : inner.call target [] (w.become w.store) with ⟨_ | _ | _, w₁⟩ <;>
      simp only [ran] at failed
    · cases failed
    · cases failed
      exact .target known ran
    · cases failed

/-- The start function `name` of a module is called and ends with a failure. The call is not
refused: the name is that of a function that takes nothing, and the module it belongs to is
there. -/
def StartRaises (interpreter : Interpreter κ σ) (e : EnvironmentId) (name : String)
    (w : World κ σ) (reason : EvalError) (w' : World κ σ) : Prop :=
  ∃ depth f w₁, interpreter.depth = depth + 1 ∧
    w.store.readEntityAs .function Value.function? e name = .ok f ∧ w₁.store = w.store ∧
    w₁.memo = w.memo ∧ Raises interpreter.embedder (Calls.ofDepth interpreter.embedder depth) f w₁
      reason w'

/-- Whatever code does, all names keep their entities. -/
theorem passing_equips : Passing fun w w' : World κ σ =>
    w.store.Equips homes e environment names → w'.store.Equips homes e environment names where
  refl _ equips := equips
  trans _ _ _ first second equips := second (first equips)
  operate _ _ _ _ ran equips := equips.perform ran
  keep _ _ equips := equips

theorem equips_run {α : Type} (interpreter : Interpreter κ σ) (p : Program κ σ α)
    (equips : w.store.Equips homes e environment names) :
    (p.run interpreter.calls w).2.store.Equips homes e environment names :=
  passes_run passing_equips (passes_ofDepth passing_equips interpreter.embedder interpreter.depth) p w
    equips

section Start

variable (home : homes e record) (fits : record.WellFormed) (shape : record.body = .binary body)

include home fits shape

/-- The start function that the check has let through. -/
theorem startRaises_of_run (interpreter : Interpreter κ σ) {reason : EvalError}
    (started : typeOf? (body.definitions ++ record.importTypes) name = some (.function ⟨[], []⟩))
    (equips : w.store.Equips homes e environment (record.entityTypes.map (·.1)))
    (failed : (Program.invokeName e name []).run interpreter.calls w = (some (.error reason), w')) :
    StartRaises interpreter e name w reason w' := by
  have declared : (name, .function ⟨[], []⟩) ∈ record.entityTypes := by
    unfold Record.entityTypes
    rw [shape]
    exact Store.mem_of_typeOf? started
  obtain ⟨value, read, conforms⟩ := equips.entity home fits (List.mem_map_of_mem declared) declared
  obtain ⟨f, function, _, same, rfl, known, signed⟩ := conforms.function rfl
  cases same
  have found : w.store.readEntityOf .function e name = .ok (.function f) :=
    Store.readEntityAs_eq_ok read rfl
  have whole : (Program.invokeName e name []).run interpreter.calls = _ :=
    Program.run_bind interpreter.calls (Program.operate (.readEntityOf .function e name)) _
  have asked : (Program.operate (.readEntityOf .function e name)).run interpreter.calls w =
      (some (.ok (.function f)), w.become w.store) := by
    unfold Program.operate
    rw [run_ask]
    exact reading_apply found
  rw [whole, Run.bind_apply, asked] at failed
  have invoked : interpreter.calls.invoke f [] (w.become w.store) = (some (.error reason), w') :=
    (run_ask interpreter.calls (.invoke f []) (w.become w.store)).symm.trans failed
  cases nesting : interpreter.depth with
  | zero =>
    rw [Interpreter.calls, nesting] at invoked
    cases invoked
  | succ depth =>
    rw [Interpreter.calls, nesting] at invoked
    have intact : (w.become w.store).store.Intact := equips.intact
    exact ⟨depth, f, (w.become w.store).become w.store, nesting, Store.readEntityAs_eq_ok read rfl, rfl,
      rfl, raises_of_invokeOver intact known signed invoked⟩

/-- The start function, if there is one, is run. -/
theorem ends_launch (interpreter : Interpreter κ σ)
    (equips : w.store.Equips homes e environment (record.entityTypes.map (·.1))) :
    (launch interpreter.calls e body).Ends w
      (fun _ w' => w'.store.Equips homes e environment (record.entityTypes.map (·.1)))
      fun reason w' => ∃ name, body.start = some name ∧ StartRaises interpreter e name w reason w' := by
  unfold launch
  cases started : body.start with
  | none => exact .pure equips
  | some name =>
    have called : ((Program.invokeName e name []).run interpreter.calls).Ends w
        (fun _ w' => w'.store.Equips homes e environment (record.entityTypes.map (·.1)))
        (StartRaises interpreter e name w) := by
      constructor
      · intro numbers w' ran
        have kept := equips_run interpreter (Program.invokeName e name []) equips
        rwa [ran] at kept
      · exact fun reason w' => startRaises_of_run home fits shape interpreter
          ((fits.binary body shape).start name started) equips
    exact (called.bind fun _ w' _ equips => .pure equips).mono (fun _ _ kept => kept)
      fun reason w' raises => ⟨name, rfl, raises⟩

end Start

end World

/-! ## Exports -/

namespace Store

variable {s s' : Store κ} {decl : ExportDecl κ}

/-- Every export of a binary module has its slot, and there the value of the entity that it
names. -/
def Provides (s : Store κ) (e : EnvironmentId) (record : Record κ) : Prop :=
  ∃ environment, s.environment? e = some environment ∧ ∀ decl ∈ record.exports, ∃ name value slot,
    (decl.source = .own name ∨ decl.source = .observed name) ∧ s.readEntity e name = .ok value ∧
      environment.exports.get? decl.name = some slot ∧ s.readSlot slot = .ok value

/-- An export of a binary module names an entity. -/
theorem exists_source (fits : record.WellFormed) (shape : record.body = .binary body)
    (declared : decl ∈ record.exports) :
    ∃ name, (decl.source = .own name ∨ decl.source = .observed name) ∧
      (name, decl.type) ∈ record.entityTypes := by
  have checked := (fits.binary body shape).exports decl declared
  unfold Record.BinaryExportFits at checked
  unfold Record.entityTypes
  rw [shape]
  cases source : decl.source with
  | own name =>
    rw [source] at checked
    exact ⟨name, .inl rfl, List.mem_append_left _ (mem_of_typeOf? checked)⟩
  | observed name =>
    rw [source] at checked
    exact ⟨name, .inr rfl, List.mem_append_right _ (mem_of_typeOf? checked)⟩
  | declaration | indirect =>
    rw [source] at checked
    exact checked.elim

section Publishing

variable (home : homes e record) (fits : record.WellFormed) (shape : record.body = .binary body)

include home fits shape

theorem Equips.publish (equips : Equips homes e environment s (record.entityTypes.map (·.1)))
    (declared : decl ∈ record.exports) : ∃ s', Store.publish e s decl = .ok s' ∧
      Equips homes e environment s' (record.entityTypes.map (·.1)) := by
  obtain ⟨name, source, entity⟩ := exists_source fits shape declared
  obtain ⟨value, read, _⟩ := equips.entity home fits (List.mem_map_of_mem entity) entity
  obtain ⟨there, known, _⟩ := readEntity_eq_ok read
  have total : ∃ s', Store.publish e s decl = .ok s' := by
    have entity : Store.publish e s decl = publishEntity e s decl.name name := by
      rcases source with source | source <;> rw [Store.publish, source]
    rw [entity]
    simp only [publishEntity, read, environment_eq_ok.mpr known, bind, Except.bind]
    cases there.exports.get? decl.name <;> exact ⟨_, rfl⟩
  obtain ⟨s', ran⟩ := total
  refine ⟨s', ran, ?_⟩
  have safe := safe_publish equips.sound home fits shape declared ran
  rcases publish_eq_ok ran with rfl | ⟨_, _, published⟩
  · exact equips
  obtain ⟨_, value, _, _, ⟨_, rfl⟩ | ⟨i, _, rfl⟩⟩ := publishEntity_eq_ok published
  · exact equips
  · exact equips.modifySlot safe

theorem Equips.publishes {decls : List (ExportDecl κ)}
    (equips : Equips homes e environment s (record.entityTypes.map (·.1)))
    (declared : decls ⊆ record.exports) : ∃ s', decls.foldlM (Store.publish e) s = .ok s' := by
  induction decls generalizing s with
  | nil => exact ⟨s, rfl⟩
  | cons decl rest ih =>
    obtain ⟨s', ran, equips'⟩ := equips.publish home fits shape (declared List.mem_cons_self)
    rw [List.foldlM_cons, ran]
    exact ih equips' fun other member => declared (List.mem_cons_of_mem _ member)

/-- A module that has its entities publishes all its exports, and is not stopped between two. -/
theorem Equips.publishesAll
    (equips : Equips homes e environment s (record.entityTypes.map (·.1))) :
    ∃ s', publishAll e record.exports s = .ok ((), s') := by
  obtain ⟨s', folded⟩ := equips.publishes home fits shape (List.Subset.refl _)
  exact ⟨s', by rw [publishAll, folded]; rfl⟩

/-- The exports of a module are published, and none is left out. -/
theorem Equips.provides (apart : environment.exports.values.Nodup)
    (equips : Equips homes e environment s (record.entityTypes.map (·.1)))
    (ran : publishAll e record.exports s = .ok ((), s')) : s'.Provides e record := by
  obtain ⟨entities, known⟩ := equips.shows
  have houses := equips.sound.houses e record _ home known
  obtain ⟨last, folded, same⟩ := bind_eq_ok ran
  cases same
  have kept := (publishes_keep folded).1
  refine ⟨_, by rwa [environment?, kept], fun decl declared => ?_⟩
  obtain ⟨name, source, _⟩ := exists_source fits shape declared
  obtain ⟨there, value, known', read, reads⟩ := publishAll_reads fits.exportsDistinct
    (fun other known' => by cases known.symm.trans known'; exact apart) ran declared source
  cases known.symm.trans known'
  obtain ⟨i, given⟩ := houses.given decl declared fun specifier inner same => by
    rcases source with source | source <;> cases source.symm.trans same
  obtain ⟨_, _, _, slot, held, _⟩ := houses.exports decl.name i given
  exact ⟨name, value, i, source, read, given, reads i slot given held⟩

end Publishing
end Store

/-! ## The whole instantiation -/

namespace World

variable {w w' : World κ σ} {identity : String}

/-- What an instantiation that does not succeed fails for, and the world that it leaves. -/
inductive Halts (interpreter : Interpreter κ σ) (e : EnvironmentId) (identity : String)
    (body : BinaryBody κ) (w : World κ σ) : EvalError → World κ σ → Prop
  /-- A memory or a table cannot be had. -/
  | size {reason : EvalError} {w' : World κ σ}
      (stopped : definitions e body w = (some (.error reason), w')) (refused : Refused body reason) :
      Halts interpreter e identity body w reason w'
  /-- A segment does not fit. -/
  | segment {cause : TrapCause} {w₁ w' : World κ σ}
      (made : definitions e body w = (some (.ok ()), w₁))
      (trapped : Trapped e identity body w₁ w' cause) :
      Halts interpreter e identity body w (.trap identity cause) w'
  /-- The start function ends with a failure. -/
  | start {name : String} {reason : EvalError} {w₁ w₂ w' : World κ σ}
      (made : definitions e body w = (some (.ok ()), w₁))
      (applied : segments e identity body.data body.elements w₁ = (some (.ok ()), w₂))
      (started : body.start = some name) (raises : StartRaises interpreter e name w₂ reason w') :
      Halts interpreter e identity body w reason w'

section Instantiating

variable (interpreter : Interpreter κ σ) (home : homes e record)
  (unique : ∀ other, homes e other → other = record) (fits : record.WellFormed)
  (shape : record.body = .binary body)
  (equips : w.store.Equips homes e environment (record.imports.map (·.localName)))

include home unique fits shape equips

/-- Where the imports of a module have their entities, all names have them when its exports come,
unless the module halts before. -/
theorem ends_define : (define interpreter.calls e identity body).Ends w
    (fun _ w' => w'.store.Equips homes e environment (record.entityTypes.map (·.1)))
    (Halts interpreter e identity body w) := by
  rw [define_steps]
  have defined : (definitions e body).Ends w
      (fun _ w' => w'.store.Equips homes e environment (record.entityTypes.map (·.1)))
      (Halts interpreter e identity body w) :=
    (ends_definitions fits home unique shape equips).ran.mono (fun _ _ done => done.2)
      fun reason w' ⟨stopped, refused⟩ => .size stopped refused
  refine defined.bind fun _ w₁ made equips => ?_
  have applied : (segments e identity body.data body.elements).Ends w₁
      (fun _ w' => w'.store.Equips homes e environment (record.entityTypes.map (·.1)))
      (Halts interpreter e identity body w) :=
    (ends_segments home fits shape equips).ran.mono (fun _ _ done => done.2)
      fun reason w' ⟨ran, cause, same, misfits⟩ =>
        same ▸ .segment made (trapped_of_misfit misfits (same ▸ ran))
  refine applied.bind fun _ w₂ applied equips => ?_
  exact (ends_launch home fits shape interpreter equips).mono (fun _ _ kept => kept)
    fun reason w' ⟨name, started, raises⟩ => .start made applied started raises

/-- Its instantiation gives every export its value, unless it halts for one of these reasons. -/
theorem ends_instantiate (apart : environment.exports.values.Nodup) :
    (instantiate interpreter.calls e identity record body).Ends w
      (fun _ w' => w'.store.Provides e record) (Halts interpreter e identity body w) := by
  rw [instantiate_eq]
  refine (ends_define interpreter home unique fits shape equips).bind fun _ w₁ _ equips => ?_
  obtain ⟨s, published⟩ := equips.publishesAll home fits shape
  refine ends_change (fun _ s published => equips.provides home fits shape apart published)
    fun reason refused => ?_
  cases published.symm.trans refused

end Instantiating

end World
end MixedModules
