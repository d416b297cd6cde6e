import MixedModules.Record.Validation

/-! What a record promises once its check has passed.

Each promise is named for what a later stage relies on, so no other module opens the
check itself. -/
namespace MixedModules

/-- A computation that goes on did not fail before. -/
theorem bind_eq_ok {ε α β : Type} {x : Except ε α} {f : α → Except ε β} {b : β}
    (ran : (x >>= f) = .ok b) : ∃ a, x = .ok a ∧ f a = .ok b := by
  cases x with
  | error e => cases ran
  | ok a => exact ⟨a, rfl, ran⟩

theorem require_eq_ok_iff {p : Bool} {fault : RecordFault} :
    require p fault = .ok () ↔ p = true := by
  cases p <;> simp [require]

private theorem require_bind {p : Bool} {fault : RecordFault} {next : Unit → Check}
    (passed : (require p fault >>= next) = .ok ()) : p = true ∧ next () = .ok () := by
  obtain ⟨_, guard, rest⟩ := bind_eq_ok passed
  exact ⟨require_eq_ok_iff.mp guard, rest⟩

namespace Record

variable {κ : Type}

/-- A declared import that the check let through. -/
structure ImportFits (r : Record κ) (decl : ImportDecl) : Prop where
  requested : decl.specifier ∈ r.requested
  kind : decl.kind = decl.type.bindingKind
  typed : r.kind = .binary → decl.type ≠ .none
  untyped : r.kind = .script → decl.type = .none

private theorem checkImports_ok {r : Record κ} {seen : List String} {decls : List ImportDecl}
    (passed : r.checkImports seen decls = .ok ()) :
    (∀ decl ∈ decls, r.ImportFits decl) ∧ (∀ decl ∈ decls, decl.localName ∉ seen) ∧
      (decls.map (·.localName)).Nodup := by
  induction decls generalizing seen with
  | nil => simp
  | cons decl rest ih =>
    obtain ⟨requested, passed⟩ := require_bind passed
    obtain ⟨kind, passed⟩ := require_bind passed
    obtain ⟨typed, passed⟩ := require_bind passed
    obtain ⟨untyped, passed⟩ := require_bind passed
    obtain ⟨fresh, passed⟩ := require_bind passed
    obtain ⟨fits, unseen, distinct⟩ := ih passed
    have head : r.ImportFits decl := by
      refine ⟨by simpa using requested, by simpa using kind, fun binary => ?_, fun script => ?_⟩
      · simpa [binary] using typed
      · simpa [script] using untyped
    refine ⟨?_, ?_, ?_⟩
    · simpa using ⟨head, fits⟩
    · intro other member
      rcases List.mem_cons.mp member with rfl | member
      · simpa using fresh
      · exact fun held => unseen other member (List.mem_cons_of_mem _ held)
    · refine List.nodup_cons.mpr ⟨fun member => ?_, distinct⟩
      obtain ⟨other, held, same⟩ := List.mem_map.mp member
      exact unseen other held (by simp [same])

private theorem checkExports_ok {seen : List String} {decls : List (ExportDecl κ)}
    (passed : checkExports seen decls = .ok ()) :
    (∀ decl ∈ decls, decl.kind = decl.type.bindingKind) ∧ (∀ decl ∈ decls, decl.name ∉ seen) ∧
      (decls.map (·.name)).Nodup := by
  induction decls generalizing seen with
  | nil => simp
  | cons decl rest ih =>
    obtain ⟨fresh, passed⟩ := require_bind passed
    obtain ⟨kind, passed⟩ := require_bind passed
    obtain ⟨kinds, unseen, distinct⟩ := ih passed
    refine ⟨?_, ?_, ?_⟩
    · simpa using ⟨by simpa using kind, kinds⟩
    · intro other member
      rcases List.mem_cons.mp member with rfl | member
      · simpa using fresh
      · exact fun held => unseen other member (List.mem_cons_of_mem _ held)
    · refine List.nodup_cons.mpr ⟨fun member => ?_, distinct⟩
      obtain ⟨other, held, same⟩ := List.mem_map.mp member
      exact unseen other held (by simp [same])

/-- What an export of a script module may be. -/
def ScriptExportFits (r : Record κ) (decl : ExportDecl κ) : Prop :=
  decl.type = .none ∧
    match decl.source with
    | .own name => ∀ i ∈ r.imports, i.localName ≠ name
    | .observed _ => False
    | .indirect specifier _ => specifier ∈ r.requested
    | .declaration _ => True

private theorem checkScriptExport_ok {r : Record κ} {decl : ExportDecl κ}
    (passed : r.checkScriptExport decl = .ok ()) : r.ScriptExportFits decl := by
  obtain ⟨untyped, passed⟩ := require_bind passed
  refine ⟨by simpa using untyped, ?_⟩
  cases source : decl.source with
  | own name =>
    simp only [source] at passed
    simpa using require_eq_ok_iff.mp passed
  | declaration code => trivial
  | observed localName => simp [source] at passed
  | indirect specifier name =>
    simp only [source] at passed
    simpa using require_eq_ok_iff.mp passed

/-- What an export of a binary module may be: an entity or an import, at its very type. -/
def BinaryExportFits (r : Record κ) (body : BinaryBody κ) (decl : ExportDecl κ) : Prop :=
  match decl.source with
  | .own name => typeOf? body.definitions name = some decl.type
  | .observed localName => typeOf? r.importTypes localName = some decl.type
  | .declaration _ | .indirect .. => False

private theorem checkBinaryExport_ok {r : Record κ} {body : BinaryBody κ} {decl : ExportDecl κ}
    (passed : checkBinaryExport body.definitions r.importTypes decl = .ok ()) :
    r.BinaryExportFits body decl := by
  unfold checkBinaryExport at passed
  unfold BinaryExportFits
  cases source : decl.source with
  | own name =>
    simp only [source] at passed
    cases found : typeOf? body.definitions name with
    | none => simp [found] at passed
    | some type => simp_all [require_eq_ok_iff]
  | observed localName =>
    simp only [source] at passed
    cases found : typeOf? r.importTypes localName with
    | none => simp [found] at passed
    | some type => simp_all [require_eq_ok_iff]
  | declaration code => simp [source] at passed
  | indirect specifier name => simp [source] at passed

/-- A name that denotes an entity or an import of one kind. -/
def Refers (r : Record κ) (body : BinaryBody κ) (kind : BindingKind) (name : String) : Prop :=
  ∃ type, typeOf? (body.definitions ++ r.importTypes) name = some type ∧ type.bindingKind = kind

private theorem checkReference_ok {r : Record κ} {body : BinaryBody κ} {role name : String}
    {kind : BindingKind}
    (passed : checkReference (body.definitions ++ r.importTypes) role kind name = .ok ()) :
    r.Refers body kind name := by
  unfold checkReference at passed
  cases found : typeOf? (body.definitions ++ r.importTypes) name with
  | none => simp [found] at passed
  | some type =>
    simp only [found, require_eq_ok_iff, beq_iff_eq] at passed
    exact ⟨type, found, passed⟩

/-- What a global begins with: a number of its own type, or what an imported global of the
same type of numbers holds. -/
def InitialFits (r : Record κ) (d : GlobalDef) : Prop :=
  match d.initial with
  | .constant value => value.type = d.type.value
  | .imported localName =>
    ∃ type, typeOf? r.importTypes localName = some (.numeric type) ∧ type.value = d.type.value

private theorem checkInitializer_ok {r : Record κ} {d : GlobalDef}
    (passed : checkInitializer r.importTypes d = .ok ()) : r.InitialFits d := by
  unfold checkInitializer at passed
  unfold InitialFits
  cases initial : d.initial with
  | constant value => simpa [initial, require_eq_ok_iff] using passed
  | imported localName =>
    simp only [initial] at passed
    cases found : typeOf? r.importTypes localName with
    | none => simp [found] at passed
    | some type =>
      cases type with
      | numeric type => exact ⟨type, found, by simpa [found, require_eq_ok_iff] using passed⟩
      | none | resource | function => simp [found] at passed

private theorem checkStart_ok {r : Record κ} {body : BinaryBody κ} {name : String}
    (passed : checkStart (body.definitions ++ r.importTypes) name = .ok ()) :
    typeOf? (body.definitions ++ r.importTypes) name = some (.function ⟨[], []⟩) := by
  obtain ⟨_, reference, passed⟩ := bind_eq_ok passed
  obtain ⟨type, found, kind⟩ := checkReference_ok reference
  rw [found] at passed ⊢
  cases type with
  | function type =>
    simp only [require_eq_ok_iff, beq_iff_eq] at passed
    rw [passed]
  | resource k => cases k <;> cases kind
  | none | numeric => cases kind

/-- The body of a binary module: entities have names of their own, whatever is named is there
and of the right kind, and exports stand for entities or imports. -/
structure BinaryFits (r : Record κ) (body : BinaryBody κ) : Prop where
  distinct : (body.definitions.map (·.1)).Nodup
  unshadowed : ∀ entry ∈ body.definitions, ∀ decl ∈ r.imports, decl.localName ≠ entry.1
  initials : ∀ d ∈ body.globals, r.InitialFits d
  data : ∀ segment ∈ body.data, r.Refers body .memory segment.memory
  elements : ∀ segment ∈ body.elements, r.Refers body .table segment.table ∧
    ∀ name ∈ segment.functions, r.Refers body .function name
  start : ∀ name, body.start = some name →
    typeOf? (body.definitions ++ r.importTypes) name = some (.function ⟨[], []⟩)
  exports : ∀ decl ∈ r.exports, r.BinaryExportFits body decl

private theorem checkBinary_ok {r : Record κ} {body : BinaryBody κ}
    (passed : r.checkBinary body = .ok ()) : r.BinaryFits body := by
  obtain ⟨distinct, passed⟩ := require_bind passed
  cases found : body.definitions.find? fun entry => (typeOf? r.importTypes entry.1).isSome with
  | some entry => simp [found, bind, Except.bind] at passed
  | none =>
    simp only [found] at passed
    obtain ⟨_, _, passed⟩ := bind_eq_ok passed
    obtain ⟨_, initials, passed⟩ := bind_eq_ok passed
    obtain ⟨_, data, passed⟩ := bind_eq_ok passed
    obtain ⟨_, elements, passed⟩ := bind_eq_ok passed
    have rest : (∀ name, body.start = some name →
        checkStart (body.definitions ++ r.importTypes) name = .ok ()) ∧
        checkAll (checkBinaryExport body.definitions r.importTypes) r.exports = .ok () := by
      cases start : body.start with
      | none =>
        simp only [start] at passed
        exact ⟨nofun, passed⟩
      | some name =>
        simp only [start] at passed
        obtain ⟨_, started, passed⟩ := bind_eq_ok passed
        exact ⟨fun _ same => by cases same; exact started, passed⟩
    obtain ⟨start, exports⟩ := rest
    refine ⟨by simpa using distinct, ?_, fun d member => ?_, fun segment member => ?_,
      fun segment member => ?_, fun name named => checkStart_ok (start name named),
      fun decl member => checkBinaryExport_ok (checkAll_eq_ok_iff.mp exports decl member)⟩
    · intro entry member decl imported same
      refine List.find?_eq_none.mp found entry member ?_
      simp only [typeOf?, importTypes, Option.isSome_map, List.find?_isSome]
      exact ⟨(decl.localName, decl.type), List.mem_map_of_mem imported, by simpa using same⟩
    · exact checkInitializer_ok (checkAll_eq_ok_iff.mp initials d member)
    · exact checkReference_ok (checkAll_eq_ok_iff.mp data segment member)
    · obtain ⟨_, table, functions⟩ := bind_eq_ok (checkAll_eq_ok_iff.mp elements segment member)
      exact ⟨checkReference_ok table, fun name named =>
        checkReference_ok (checkAll_eq_ok_iff.mp functions name named)⟩

/-- What every stage after loading may rely on. -/
structure WellFormed (r : Record κ) : Prop where
  imports : ∀ decl ∈ r.imports, r.ImportFits decl
  importsDistinct : (r.imports.map (·.localName)).Nodup
  stars : ∀ specifier ∈ r.stars, specifier ∈ r.requested
  exportKinds : ∀ decl ∈ r.exports, decl.kind = decl.type.bindingKind
  exportsDistinct : (r.exports.map (·.name)).Nodup
  script : ∀ code, r.body = .script code → ∀ decl ∈ r.exports, r.ScriptExportFits decl
  binary : ∀ body, r.body = .binary body → r.BinaryFits body

theorem wellFormed_of_validate {r : Record κ} (passed : r.validate = .ok ()) :
    r.WellFormed := by
  obtain ⟨_, imports, passed⟩ := bind_eq_ok passed
  obtain ⟨_, stars, passed⟩ := bind_eq_ok passed
  obtain ⟨_, exports, passed⟩ := bind_eq_ok passed
  obtain ⟨fits, _, importsDistinct⟩ := checkImports_ok imports
  obtain ⟨exportKinds, _, exportsDistinct⟩ := checkExports_ok exports
  refine ⟨fits, importsDistinct, ?_, exportKinds, exportsDistinct, ?_, ?_⟩
  · intro specifier member
    simpa [require_eq_ok_iff] using checkAll_eq_ok_iff.mp stars specifier member
  · intro code body decl member
    simp only [body] at passed
    exact checkScriptExport_ok (checkAll_eq_ok_iff.mp passed decl member)
  · intro body shape
    simp only [shape] at passed
    exact checkBinary_ok passed

/-- Export names are distinct, so a declaration is found by its name. -/
theorem WellFormed.find_export {r : Record κ} (fits : r.WellFormed) {decl : ExportDecl κ}
    (member : decl ∈ r.exports) :
    r.exports.find? (fun d => d.name = decl.name) = some decl := by
  have distinct := fits.exportsDistinct
  generalize r.exports = decls at member distinct
  induction decls with
  | nil => cases member
  | cons head rest ih =>
    obtain ⟨fresh, distinct⟩ := List.nodup_cons.mp distinct
    rcases List.mem_cons.mp member with rfl | member
    · simp
    · have other : head.name ≠ decl.name := fun same =>
        fresh (List.mem_map.mpr ⟨decl, member, same.symm⟩)
      simpa [other] using ih member distinct

theorem WellFormed.export_unique {r : Record κ} (fits : r.WellFormed) {one other : ExportDecl κ}
    (held : one ∈ r.exports) (declared : other ∈ r.exports) (same : one.name = other.name) :
    one = other := by
  have found := fits.find_export held
  rw [same, fits.find_export declared] at found
  exact (Option.some.inj found).symm

/-- Only a script module exports a declaration. -/
theorem WellFormed.script_of_declaration {r : Record κ} (fits : r.WellFormed) {decl : ExportDecl κ}
    {code : κ} (declared : decl ∈ r.exports) (source : decl.source = .declaration code) :
    r.kind = .script := by
  cases shape : r.body with
  | script code => simp [Record.kind, shape]
  | binary body =>
    have checked := (fits.binary body shape).exports decl declared
    simp [BinaryExportFits, source] at checked

end Record
end MixedModules
