import Mathlib.Data.List.Nodup
import MixedModules.Evaluation.Traversal
import MixedModules.Proofs.Execution.Passage
import MixedModules.Proofs.Store.Soundness

/-! Running one module keeps the store sound.

The imports of a module are observed under the types it declares, its definitions are
made with theirs, and each export gets the entity it names, whose type is the type of
the export. In between, code acts through operations. -/
namespace MixedModules

variable {κ σ : Type} {homes : EnvironmentId → Record κ → Prop} {e : EnvironmentId}
  {record : Record κ}

namespace Store

variable {s s' s'' : Store κ}

namespace Safe

theorem refl (s : Store κ) : s.Safe homes s := ⟨.refl s, fun sound => sound⟩

theorem trans (first : s.Safe homes s') (second : s'.Safe homes s'') : s.Safe homes s'' :=
  ⟨first.1.trans second.1, fun sound => second.2 (first.2 sound)⟩

theorem of_sameBindings (same : s.SameBindings s') : s.Safe homes s' :=
  ⟨same.grows, fun sound => sound.sameBindings same⟩

end Safe

theorem respected_safe (homes : EnvironmentId → Record κ → Prop) :
    Respected (Safe (κ := κ) homes) :=
  ⟨Safe.refl, fun _ _ _ first second => first.trans second,
    fun _ _ _ _ ran => ⟨grows_perform ran, fun sound => sound.perform ran⟩⟩

/-! ## Imports -/

section Imports

variable {environment : Environment} {b : ImportBinding}

theorem mem_entityTypes_of_import {decl : ImportDecl} (binary : record.kind = .binary)
    (declared : decl ∈ record.imports) : (decl.localName, decl.type) ∈ record.entityTypes := by
  unfold Record.entityTypes
  cases body : record.body with
  | script code => simp [Record.kind, body] at binary
  | binary definitions =>
    exact List.mem_append_right _ (List.mem_map.mpr ⟨decl, declared, rfl⟩)

/-- A value read in place conforms to the type of the import, by the link check. -/
theorem Bound.conforms_target {value : Value} (bound : s.Bound record b) (sound : s.Sound homes)
    (fits : record.WellFormed) (binary : record.kind = .binary) (live : b.mode = .live)
    (ran : s.readSlot b.target = .ok value) : s.Conforms b.type value := by
  obtain ⟨slot, known, checked⟩ := bound.checked binary live
  obtain ⟨slot', known', held⟩ := readSlot_eq_ok ran
  cases known.symm.trans known'
  obtain ⟨decl, declared, _, kind, type⟩ := bound.declared
  have importKind : b.kind = b.type.bindingKind := by
    rw [kind, type]
    exact (fits.imports decl declared).kind
  have soundSlot := sound.slots _ slot known
  exact Conforms.of_checkLink checked importKind soundSlot.kind
    (soundSlot.conforms (checkLink_typed checked) value held)

/-- What a module gets installed under a name that it declares. -/
private theorem safe_install {name : String} {type : TypeSig} {value : Value}
    (unique : ∀ other, homes e other → other = record)
    (declared : (name, type) ∈ record.entityTypes) (conforms : s.Conforms type value) :
    s.Safe homes (s.install e name value) := by
  refine ⟨grows_install s e name value, fun sound => sound.install (fun other home => ?_) conforms⟩
  rw [unique other home]
  exact declared

/-- What observing an import does to a store, by the kind of the importer and by how the import
is read. -/
inductive ImportStep (e : EnvironmentId) (environment : Environment) (b : ImportBinding)
    (s : Store κ) : Store κ → Prop
  | left (script : environment.kind = .script) (live : b.mode = .live) :
      ImportStep e environment b s s
  | installed {value : Value} (binary : environment.kind = .binary) (live : b.mode = .live)
      (held : s.readSlot b.target = .ok value) :
      ImportStep e environment b s (s.install e b.localName value)
  | captured {value : Value} (script : environment.kind = .script) (snapshot : b.mode = .snapshot)
      (held : s.readSlot b.target = .ok value) :
      ImportStep e environment b s (s.modifySlot b.own fun slot => slot.setSnapshot value)
  | checked {value observed : Value} {s₁ : Store κ} (binary : environment.kind = .binary)
      (snapshot : b.mode = .snapshot) (held : s.readSlot b.target = .ok value)
      (observes : s.observe b.kind b.type value = .ok (observed, s₁)) :
      ImportStep e environment b s
        ((s₁.modifySlot b.own fun slot => slot.setSnapshot observed).install e b.localName observed)

theorem importStep_of_observeImport (ran : observeImport e environment b s = .ok ((), s')) :
    ImportStep e environment b s s' := by
  unfold observeImport at ran
  cases mode : b.mode <;> cases kind : environment.kind <;> rw [mode, kind] at ran
  · cases ran
    exact .left kind mode
  · obtain ⟨value, held, ran⟩ := bind_eq_ok ran
    cases ran
    exact .installed kind mode held
  · obtain ⟨value, held, ran⟩ := bind_eq_ok ran
    cases ran
    exact .captured kind mode held
  · obtain ⟨value, held, ran⟩ := bind_eq_ok ran
    cases result : s.observe b.kind b.type value with
    | error reason =>
      rw [result] at ran
      cases ran
    | ok pair =>
      rw [result] at ran
      cases ran
      exact .checked kind mode held result

/-- Observing an import is safe: what it puts anywhere was checked, by the link or now. -/
theorem safe_observeImport (sound : s.Sound homes) (bound : s.Bound record b)
    (fits : record.WellFormed) (unique : ∀ other, homes e other → other = record)
    (kind : environment.kind = record.kind)
    (ran : observeImport e environment b s = .ok ((), s')) : s.Safe homes s' := by
  obtain ⟨decl, declared, localName, _, type⟩ := bound.declared
  obtain ⟨own, ownKnown, ownType⟩ := bound.own
  have entity (binary : environment.kind = .binary) : (b.localName, b.type) ∈ record.entityTypes := by
    rw [localName, type]
    exact mem_entityTypes_of_import (kind.symm.trans binary) declared
  cases importStep_of_observeImport ran with
  | left => exact .refl s
  | installed binary live held =>
    exact safe_install unique (entity binary)
      (bound.conforms_target sound fits (kind.symm.trans binary) live held)
  | captured script snapshot held =>
    have untyped : own.type = .none := by
      rw [ownType, type]
      exact (fits.imports decl declared).untyped (kind.symm.trans script)
    refine ⟨grows_modifySlot (setSnapshot_content _), fun sound =>
      sound.modifySlot_untyped (setSnapshot_content _) fun slot known => ?_⟩
    cases ownKnown.symm.trans known
    exact untyped
  | @checked value observed s₁ binary snapshot held observes =>
    obtain ⟨same, conforms⟩ := observe_spec observes
    have captured : s₁.Safe homes (s₁.modifySlot b.own fun slot => slot.setSnapshot observed) := by
      refine ⟨grows_modifySlot (setSnapshot_content observed), fun sound =>
        sound.modifySlot (setSnapshot_content observed) fun slot known _ value held => ?_⟩
      rw [slot?, same.slots, ← slot?, ownKnown] at known
      cases known
      cases held
      rwa [ownType]
    exact ((Safe.of_sameBindings same).trans captured).trans
      (safe_install unique (entity binary) (conforms.kept captured.1.toKeeps))

end Imports

/-! ## Definitions and exports -/

section Definitions

/-- A defined global is made with some initial value, and installed. -/
theorem defineGlobal_eq_ok {d : GlobalDef} (ran : defineGlobal e d s = .ok ((), s')) :
    ∃ initial g s₁, newGlobal d.type initial s = .ok (g, s₁) ∧
      s' = s₁.install e d.name (.global g) := by
  unfold defineGlobal at ran
  cases start : d.initial with
  | constant value =>
    rw [start] at ran
    obtain ⟨initial, _, ran⟩ := bind_eq_ok ran
    obtain ⟨⟨g, s₁⟩, made, ran⟩ := bind_eq_ok ran
    cases ran
    exact ⟨initial, g, s₁, made, rfl⟩
  | imported localName =>
    rw [start] at ran
    obtain ⟨source, _, ran⟩ := bind_eq_ok ran
    obtain ⟨global, _, ran⟩ := bind_eq_ok ran
    obtain ⟨initial, _, ran⟩ := bind_eq_ok ran
    obtain ⟨⟨g, s₁⟩, made, ran⟩ := bind_eq_ok ran
    cases ran
    exact ⟨initial, g, s₁, made, rfl⟩

variable {body : BinaryBody κ}

theorem mem_entityTypes_of_definition {entry : String × TypeSig} (shape : record.body = .binary body)
    (declared : entry ∈ body.definitions) : entry ∈ record.entityTypes := by
  unfold Record.entityTypes
  rw [shape]
  exact List.mem_append_left _ declared

variable (unique : ∀ other, homes e other → other = record) (shape : record.body = .binary body)

include unique shape

theorem safe_defineGlobal {d : GlobalDef} (declared : d ∈ body.globals)
    (ran : defineGlobal e d s = .ok ((), s')) : s.Safe homes s' := by
  obtain ⟨initial, g, s₁, made, rfl⟩ := defineGlobal_eq_ok ran
  obtain ⟨same, global, known, type⟩ := sameBindings_newGlobal made
  have conforms : s₁.Conforms (.numeric d.type) (.global g) := ⟨global, known, type⟩
  refine (Safe.of_sameBindings same).trans (safe_install unique ?_ conforms)
  apply mem_entityTypes_of_definition shape
  simp only [BinaryBody.definitions, List.mem_append, List.mem_map]
  exact .inl (.inl (.inl ⟨d, declared, rfl⟩))

theorem safe_defineMemory {d : SizedDef} (declared : d ∈ body.memories)
    (ran : defineMemory e d s = .ok ((), s')) : s.Safe homes s' := by
  unfold defineMemory at ran
  obtain ⟨⟨m, s₁⟩, made, ran⟩ := bind_eq_ok ran
  cases ran
  obtain ⟨same, memory, known, limits⟩ := sameBindings_newMemory made
  have conforms : s₁.Conforms (.resource .memory d.limits) (.memory m) :=
    ⟨memory, known, limits ▸ Limits.satisfies_refl _⟩
  refine (Safe.of_sameBindings same).trans (safe_install unique ?_ conforms)
  apply mem_entityTypes_of_definition shape
  simp only [BinaryBody.definitions, List.mem_append, List.mem_map]
  exact .inl (.inl (.inr ⟨d, declared, rfl⟩))

theorem safe_defineTable {d : SizedDef} (declared : d ∈ body.tables)
    (ran : defineTable e d s = .ok ((), s')) : s.Safe homes s' := by
  unfold defineTable at ran
  obtain ⟨⟨t, s₁⟩, made, ran⟩ := bind_eq_ok ran
  cases ran
  obtain ⟨same, table, known, limits⟩ := sameBindings_newTable made
  have conforms : s₁.Conforms (.resource .table d.limits) (.table t) :=
    ⟨table, known, limits ▸ Limits.satisfies_refl _⟩
  refine (Safe.of_sameBindings same).trans (safe_install unique ?_ conforms)
  apply mem_entityTypes_of_definition shape
  simp only [BinaryBody.definitions, List.mem_append, List.mem_map]
  exact .inl (.inr ⟨d, declared, rfl⟩)

theorem safe_defineFunction {d : FuncDef κ} (declared : d ∈ body.functions)
    (ran : defineFunction e d s = .ok ((), s')) : s.Safe homes s' := by
  unfold defineFunction at ran
  cases ran
  have added : s.Safe homes (s.addFunction d.name (.binary d.type d.code e)).2 :=
    ⟨grows_addFunction .., fun sound => sound.step (grows_addFunction ..).toKeeps
      (fun _ _ known => .inl known) fun _ after known => ⟨after, known, rfl, .inl rfl⟩⟩
  have conforms : (s.addFunction d.name (.binary d.type d.code e)).2.Conforms (.function d.type)
      (.function (s.addFunction d.name (.binary d.type d.code e)).1) :=
    ⟨_, function_addFunction .., rfl⟩
  refine added.trans (safe_install unique ?_ conforms)
  apply mem_entityTypes_of_definition shape
  simp only [BinaryBody.definitions, List.mem_append, List.mem_map]
  exact .inr ⟨d, declared, rfl⟩

end Definitions

/-- A name found in a list of types stands in it. -/
theorem mem_of_typeOf? {types : List (String × TypeSig)} {name : String} {type : TypeSig}
    (found : typeOf? types name = some type) : (name, type) ∈ types := by
  unfold typeOf? at found
  obtain ⟨⟨name', type'⟩, first, rfl⟩ := Option.map_eq_some_iff.mp found
  have named : name' = name := by simpa using List.find?_some first
  exact named ▸ List.mem_of_find?_eq_some first

/-- An entity has one type: definitions and imports have names of their own. -/
theorem entityTypes_distinct (fits : record.WellFormed) :
    (record.entityTypes.map (·.1)).Nodup := by
  unfold Record.entityTypes
  cases shape : record.body with
  | script code => exact List.nodup_nil
  | binary body =>
    have binary := fits.binary body shape
    simp only [List.map_append]
    refine List.Nodup.append binary.distinct ?_ fun name defined imported => ?_
    · simpa [Record.importTypes, Function.comp_def] using fits.importsDistinct
    · obtain ⟨entry, held, rfl⟩ := List.mem_map.mp defined
      obtain ⟨other, there, same⟩ := List.mem_map.mp imported
      obtain ⟨decl, declared, rfl⟩ := List.mem_map.mp there
      exact binary.unshadowed entry held decl declared same

theorem entityType_unique {name : String} {one other : TypeSig} (fits : record.WellFormed)
    (held : (name, one) ∈ record.entityTypes) (also : (name, other) ∈ record.entityTypes) :
    one = other := by
  have same := List.inj_on_of_nodup_map (entityTypes_distinct fits) held also rfl
  cases same
  rfl

/-- The check of a record lets an export name one thing only, at the type of the export. -/
theorem entityType_of_export {body : BinaryBody κ} {decl : ExportDecl κ} {name : String}
    {type : TypeSig} (fits : record.WellFormed) (shape : record.body = .binary body)
    (declared : decl ∈ record.exports)
    (source : decl.source = .own name ∨ decl.source = .observed name)
    (held : (name, type) ∈ record.entityTypes) : type = decl.type := by
  have checked := (fits.binary body shape).exports decl declared
  unfold Record.BinaryExportFits at checked
  apply entityType_unique fits held
  unfold Record.entityTypes
  rw [shape]
  rcases source with own | observed
  · rw [own] at checked
    exact List.mem_append_left _ (mem_of_typeOf? checked)
  · rw [observed] at checked
    exact List.mem_append_right _ (mem_of_typeOf? checked)

/-- An export of a binary module is typed: it stands for an entity or an import, and
these are typed. -/
theorem export_typed {body : BinaryBody κ} {decl : ExportDecl κ} (fits : record.WellFormed)
    (shape : record.body = .binary body) (declared : decl ∈ record.exports) :
    decl.type ≠ .none := by
  have checked := (fits.binary body shape).exports decl declared
  unfold Record.BinaryExportFits at checked
  cases source : decl.source with
  | own name =>
    rw [source] at checked
    have defined := mem_of_typeOf? checked
    simp only [BinaryBody.definitions, List.mem_append, List.mem_map, Prod.mk.injEq] at defined
    rcases defined with ((⟨_, _, _, same⟩ | ⟨_, _, _, same⟩) | ⟨_, _, _, same⟩) | ⟨_, _, _, same⟩ <;>
      simp [← same]
  | observed name =>
    rw [source] at checked
    obtain ⟨i, imported, same⟩ := List.mem_map.mp (mem_of_typeOf? checked)
    have binary : record.kind = .binary := by simp [Record.kind, shape]
    have typed := (fits.imports i imported).typed binary
    have type : i.type = decl.type := congrArg Prod.snd same
    rwa [type] at typed
  | declaration =>
    rw [source] at checked
    exact checked.elim
  | indirect =>
    rw [source] at checked
    exact checked.elim

/-- What is published is an entity, and it goes into the slot of the export if there is one. -/
theorem publishEntity_eq_ok {exported name : String}
    (ran : publishEntity e s exported name = .ok s') :
    ∃ environment value, s.environment? e = some environment ∧
      environment.entities.get? name = some value ∧
      (environment.exports.get? exported = none ∧ s' = s ∨
        ∃ i, environment.exports.get? exported = some i ∧
          s' = s.modifySlot i fun slot => slot.setLive value) := by
  unfold publishEntity at ran
  obtain ⟨value, read, ran⟩ := bind_eq_ok ran
  obtain ⟨environment, known, ran⟩ := bind_eq_ok ran
  obtain ⟨environment', known', held⟩ := readEntity_eq_ok read
  cases (environment_eq_ok.mp known).symm.trans known'
  refine ⟨environment, value, known', held, ?_⟩
  cases slot : environment.exports.get? exported with
  | none =>
    rw [slot] at ran
    cases ran
    exact .inl ⟨rfl, rfl⟩
  | some i =>
    rw [slot] at ran
    cases ran
    exact .inr ⟨i, rfl, rfl⟩

/-- An export that is published has a source among the entities. Any other is left alone. -/
theorem publish_eq_ok {decl : ExportDecl κ} (ran : publish e s decl = .ok s') :
    s' = s ∨ ∃ name, (decl.source = .own name ∨ decl.source = .observed name) ∧
      publishEntity e s decl.name name = .ok s' := by
  unfold publish at ran
  cases source : decl.source with
  | own name =>
    rw [source] at ran
    exact .inr ⟨name, .inl rfl, ran⟩
  | observed name =>
    rw [source] at ran
    exact .inr ⟨name, .inr rfl, ran⟩
  | declaration code =>
    rw [source] at ran
    cases ran
    exact .inl rfl
  | indirect specifier name =>
    rw [source] at ran
    cases ran
    exact .inl rfl

/-- An export gets the entity it names, in a slot of the same type. -/
theorem safe_publish {body : BinaryBody κ} {decl : ExportDecl κ} (sound : s.Sound homes)
    (home : homes e record) (fits : record.WellFormed) (shape : record.body = .binary body)
    (declared : decl ∈ record.exports) (ran : publish e s decl = .ok s') : s.Safe homes s' := by
  rcases publish_eq_ok ran with rfl | ⟨name, source, ran⟩
  · exact .refl s'
  obtain ⟨environment, value, known, held, ⟨_, rfl⟩ | ⟨i, slot, rfl⟩⟩ := publishEntity_eq_ok ran
  · exact .refl s'
  have houses := sound.houses e record environment home known
  obtain ⟨type, named, conforms⟩ := houses.entities name value held
  refine ⟨grows_modifySlot (setLive_content value), fun sound =>
    sound.modifySlot (setLive_content value) fun held known _ given same => ?_⟩
  obtain ⟨other, there, sameName, slot', known', _, typed⟩ := houses.exports decl.name i slot
  cases known.symm.trans known'
  cases same
  rw [typed, fits.export_unique there declared sameName,
    ← entityType_of_export fits shape declared source named]
  exact conforms

theorem safe_publishAll {body : BinaryBody κ} (sound : s.Sound homes) (home : homes e record)
    (fits : record.WellFormed) (shape : record.body = .binary body)
    (ran : publishAll e record.exports s = .ok ((), s')) : s.Safe homes s' := by
  unfold publishAll at ran
  obtain ⟨last, folded, same⟩ := bind_eq_ok ran
  obtain rfl : last = s' := by
    cases same
    rfl
  have all : ∀ decls : List (ExportDecl κ), (∀ decl ∈ decls, decl ∈ record.exports) →
      ∀ s : Store κ, s.Sound homes → decls.foldlM (publish e) s = .ok last → s.Safe homes last := by
    intro decls
    induction decls with
    | nil =>
      intro _ s _ ran
      cases ran
      exact .refl last
    | cons decl rest ih =>
      intro declared s sound ran
      obtain ⟨next, first, ran⟩ := bind_eq_ok ran
      have step := safe_publish sound home fits shape (declared decl List.mem_cons_self) first
      exact step.trans (ih (fun other member => declared other (List.mem_cons_of_mem _ member))
        next (step.2 sound) ran)
  exact all record.exports (fun _ member => member) s sound folded

/-! ## Segments -/

theorem trapOf_eq_ok {α : Type} {identity : String} {cause : TypeFault → TrapCause}
    {result : Except EvalError α} {a : α} (ran : trapOf identity cause result = .ok a) :
    result = .ok a := by
  unfold trapOf at ran
  cases result with
  | error e => cases ran
  | ok b => exact ran

theorem sameBindings_applyData {identity : String} {segment : DataSegment}
    (ran : applyData e identity segment s = .ok ((), s')) : s.SameBindings s' := by
  unfold applyData at ran
  obtain ⟨m, _, ran⟩ := bind_eq_ok ran
  exact sameBindings_writeMemory (trapOf_eq_ok ran)

theorem sameBindings_applyElement {identity name : String} {segment : ElementSegment} {t : TableId}
    {i : Nat} (ran : applyElement e identity segment t i name s = .ok ((), s')) :
    s.SameBindings s' := by
  unfold applyElement at ran
  split at ran
  · cases ran
  · obtain ⟨f, _, ran⟩ := bind_eq_ok ran
    exact sameBindings_writeTable (trapOf_eq_ok ran)

end Store

/-! ## The whole body -/

namespace World

variable {w : World κ σ}

theorem leads_observeImports {environment : Environment} (sound : w.store.Sound homes)
    (fits : record.WellFormed) (home : homes e record)
    (unique : ∀ other, homes e other → other = record)
    (known : w.store.environment? e = some environment) :
    Leads (Store.Safe homes) w (observeImports e environment w).2 := by
  have respected := Store.respected_safe homes
  have houses := sound.houses e record environment home known
  unfold observeImports
  refine leads_forM respected fun b member w' before => leads_change respected fun _ s ran => ?_
  exact Store.safe_observeImport (before.present.2 sound)
    ((houses.imports b member).kept before.present.1.toKeeps) fits unique houses.kind ran

theorem through_enterDeadZones (environment : Environment) :
    Through (Store.Safe homes) (enterDeadZones environment : Run (World κ σ) Unit) := by
  have respected := Store.respected_safe (κ := κ) homes
  refine through_forM respected fun i _ w => leads_change respected fun _ s ran => ?_
  cases ran
  refine ⟨Store.grows_modifySlot Store.enterDeadZone_content, fun sound =>
    sound.modifySlot Store.enterDeadZone_content fun slot known typed value held => ?_⟩
  apply (sound.slots i slot known).conforms typed value
  unfold Slot.enterDeadZone at held
  split at held
  · cases held
  · exact held

theorem leads_instantiate {calls : Calls κ σ} {body : BinaryBody κ} {identity : String}
    (sound : w.store.Sound homes) (fits : record.WellFormed) (home : homes e record)
    (unique : ∀ other, homes e other → other = record) (shape : record.body = .binary body)
    (through : PassesCalls (Leads (Store.Safe homes)) calls) :
    Leads (Store.Safe homes) w (instantiate calls e identity record body w).2 := by
  have respected := Store.respected_safe homes
  have define : ∀ {α : Type} {step : α → Change κ Unit} {ds : List α},
      (∀ d ∈ ds, ∀ s s', step d s = .ok ((), s') → s.Safe homes s') →
      Through (Store.Safe homes) (ds.forM fun d => change (step d) : Run (World κ σ) Unit) :=
    fun safe => through_forM respected fun d member w =>
      leads_change respected fun _ s ran => safe d member w.store s ran
  have elements : ∀ segment, Through (Store.Safe homes)
      (applyElements e identity segment : Run (World κ σ) Unit) := by
    intro segment
    unfold applyElements
    refine through_bind respected (through_reading respected _) fun t => ?_
    refine through_forM respected fun entry _ w => leads_change respected fun _ s ran => ?_
    exact .of_sameBindings (Store.sameBindings_applyElement ran)
  unfold instantiate
  refine leads_next respected (.refl respected w)
    (define fun d member s s' => Store.safe_defineGlobal unique shape member) fun w₁ before => ?_
  refine leads_next respected before
    (define fun d member s s' => Store.safe_defineMemory unique shape member) fun w₂ before => ?_
  refine leads_next respected before
    (define fun d member s s' => Store.safe_defineTable unique shape member) fun w₃ before => ?_
  refine leads_next respected before
    (define fun d member s s' => Store.safe_defineFunction unique shape member) fun w₄ before => ?_
  refine leads_next respected before
    (define fun d _ s s' ran => .of_sameBindings (Store.sameBindings_applyData ran)) fun w₅ before => ?_
  refine leads_next respected before
    (through_forM respected fun segment _ => elements segment) fun w₆ before => ?_
  have last : ∀ w', Leads (Store.Safe homes) w w' →
      Leads (Store.Safe homes) w' (change (Store.publishAll e record.exports) w').2 := fun w' before =>
    leads_change respected fun _ s ran =>
      Store.safe_publishAll (before.present.2 sound) home fits shape ran
  cases start : body.start with
  | none => exact last w₆ before
  | some name =>
    refine leads_bind respected (through_run respected through _ w₆) fun _ w₇ ran => ?_
    have here := through_run respected through (Program.invokeName e name []) w₆
    rw [ran] at here
    exact last w₇ (before.trans respected here)

/-- Running a module keeps a sound store sound, at every moment. -/
theorem leads_runModule (interpreter : Interpreter κ σ) (sound : w.store.Sound homes)
    (fits : record.WellFormed) (home : homes e record)
    (unique : ∀ other, homes e other → other = record) :
    Leads (Store.Safe homes) w (runModule interpreter e record w).2 := by
  have respected := Store.respected_safe homes
  have through : PassesCalls (Leads (Store.Safe homes)) interpreter.calls :=
    through_ofDepth respected interpreter.embedder interpreter.depth
  unfold runModule
  refine leads_bind respected (through_reading respected _ w) fun environment w₁ ran => ?_
  obtain ⟨known, same⟩ := reading_eq_ok ran
  rw [← same] at sound known
  have observed := leads_observeImports sound fits home unique (Store.environment_eq_ok.mp known)
  refine leads_bind respected observed fun _ w₂ ran => ?_
  rw [ran] at observed
  cases shape : record.body with
  | script code =>
    refine leads_next respected observed (through_enterDeadZones environment) fun w₃ before => ?_
    cases code with
    | none => exact .refl respected w₃
    | some code => exact through_run respected through _ w₃
  | binary body =>
    exact leads_instantiate (observed.present.2 sound) fits home unique shape through

end World
end MixedModules
