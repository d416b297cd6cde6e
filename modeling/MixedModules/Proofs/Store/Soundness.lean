import MixedModules.Proofs.Store.Genuine

/-! Stores whose binary modules hold what they declare.

A typed slot holds only what conforms to its type, since an own binding of a script
module, which code may assign at will, has no type. The environment of a module has
entities under declared names and types only, and its imports were checked or are
checked when they are observed. -/
namespace MixedModules

variable {κ : Type}

/-- The names under which a binary module may have entities, with their types. -/
def Record.entityTypes (r : Record κ) : List (String × TypeSig) :=
  match r.body with
  | .script _ => []
  | .binary body => body.definitions ++ r.importTypes

namespace Store

variable {s s' : Store κ} {record : Record κ} {environment : Environment}

/-- A slot whose declared kind is that of its type, and whose value, if it is typed,
has this type. -/
structure SoundSlot (s : Store κ) (slot : Slot) : Prop where
  kind : slot.kind = slot.type.bindingKind
  conforms : slot.type ≠ .none → ∀ value, slot.value? = some value → s.Conforms slot.type value

/-- A slot that is there, with a given declared type. -/
abbrev SlotTyped (s : Store κ) (i : SlotId) (type : TypeSig) : Prop :=
  ∃ slot, s.slot? i = some slot ∧ slot.type = type

/-- A slot that is there, with a given owner and declared type. -/
abbrev SlotOf (s : Store κ) (i : SlotId) (owner : String) (type : TypeSig) : Prop :=
  ∃ slot, s.slot? i = some slot ∧ slot.owner = owner ∧ slot.type = type

/-- An import as a module declared it. Where it is read in place by a binary module,
the link check let it through. -/
structure Bound (s : Store κ) (record : Record κ) (b : ImportBinding) : Prop where
  declared : ∃ decl ∈ record.imports, b.localName = decl.localName ∧ b.kind = decl.kind ∧
    b.type = decl.type
  own : s.SlotTyped b.own b.type
  checked : record.kind = .binary → b.mode = .live → ∃ slot, s.slot? b.target = some slot ∧
    checkLink b.kind b.type slot.kind slot.type = .ok ()

/-- An environment that fits a record. An export has a slot unless it is taken from
another module. -/
structure Houses (s : Store κ) (record : Record κ) (environment : Environment) : Prop where
  kind : environment.kind = record.kind
  entities : ∀ name value, environment.entities.get? name = some value →
    ∃ type, (name, type) ∈ record.entityTypes ∧ s.Conforms type value
  exports : ∀ name i, environment.exports.get? name = some i →
    ∃ decl ∈ record.exports, decl.name = name ∧ s.SlotOf i environment.identity decl.type
  given : ∀ decl ∈ record.exports, (∀ specifier inner, decl.source ≠ .indirect specifier inner) →
    ∃ i, environment.exports.get? decl.name = some i
  imports : ∀ b ∈ environment.imports.values, s.Bound record b

/-- Everything in the store is as declared, where `homes` tells which environment is
the home of which record. -/
structure Sound (homes : EnvironmentId → Record κ → Prop) (s : Store κ) : Prop where
  slots : ∀ i slot, s.slot? i = some slot → s.SoundSlot slot
  locals : ∀ e environment, s.environment? e = some environment → ∀ name i,
    environment.locals.get? name = some i → s.SlotTyped i .none
  houses : ∀ e record environment, homes e record → s.environment? e = some environment →
    s.Houses record environment

theorem SoundSlot.kept {slot : Slot} (sound : s.SoundSlot slot) (keeps : s.Keeps s') :
    s'.SoundSlot slot :=
  ⟨sound.kind, fun typed value held => (sound.conforms typed value held).kept keeps⟩

theorem SlotTyped.kept {i : SlotId} {type : TypeSig} (typed : s.SlotTyped i type)
    (keeps : s.Keeps s') : s'.SlotTyped i type := by
  obtain ⟨slot, known, rfl⟩ := typed
  obtain ⟨content, known'⟩ := keeps.slots i slot known
  exact ⟨_, known', rfl⟩

theorem SlotOf.kept {i : SlotId} {owner : String} {type : TypeSig} (made : s.SlotOf i owner type)
    (keeps : s.Keeps s') : s'.SlotOf i owner type := by
  obtain ⟨slot, known, rfl, rfl⟩ := made
  obtain ⟨content, known'⟩ := keeps.slots i slot known
  exact ⟨_, known', rfl, rfl⟩

theorem SlotOf.typed {i : SlotId} {owner : String} {type : TypeSig} (made : s.SlotOf i owner type) :
    s.SlotTyped i type := by
  obtain ⟨slot, known, _, typed⟩ := made
  exact ⟨slot, known, typed⟩

/-- The entities of a module are there. -/
theorem Houses.filled {environment : Environment} (houses : s.Houses record environment) (name : String)
    (value : Value) (found : environment.entities.get? name = some value) : s.Has value := by
  obtain ⟨type, _, conforms⟩ := houses.entities name value found
  exact .of_conforms conforms

theorem Bound.kept {b : ImportBinding} (bound : s.Bound record b) (keeps : s.Keeps s') :
    s'.Bound record b := by
  refine ⟨bound.declared, bound.own.kept keeps, fun binary live => ?_⟩
  obtain ⟨slot, known, checked⟩ := bound.checked binary live
  obtain ⟨content, known'⟩ := keeps.slots _ slot known
  exact ⟨_, known', checked⟩

theorem Houses.kept (houses : s.Houses record environment) (keeps : s.Keeps s') :
    s'.Houses record environment := by
  refine ⟨houses.kind, fun name value held => ?_, fun name i held => ?_, houses.given,
    fun b member => ?_⟩
  · obtain ⟨type, declared, conforms⟩ := houses.entities name value held
    exact ⟨type, declared, conforms.kept keeps⟩
  · obtain ⟨decl, declared, named, made⟩ := houses.exports name i held
    exact ⟨decl, declared, named, made.kept keeps⟩
  · exact (houses.imports b member).kept keeps

namespace Sound

variable {homes : EnvironmentId → Record κ → Prop}

/-- Which records are housed where matters for environments that are there. -/
theorem rehouse {homes' : EnvironmentId → Record κ → Prop} (sound : s.Sound homes)
    (covers : ∀ e record, homes' e record → homes e record ∨ s.environment? e = none) :
    s.Sound homes' := by
  refine ⟨sound.slots, sound.locals, fun e record environment home known => ?_⟩
  rcases covers e record home with home | absent
  · exact sound.houses e record environment home known
  · rw [absent] at known
    cases known

/-- Soundness survives a step that grows the store if it holds of all that the step
has changed. -/
theorem step (sound : s.Sound homes) (keeps : s.Keeps s')
    (slots : ∀ i slot, s'.slot? i = some slot → s.slot? i = some slot ∨ s'.SoundSlot slot)
    (environments : ∀ e after, s'.environment? e = some after → ∃ before,
      s.environment? e = some before ∧ after.locals = before.locals ∧
        (after = before ∨ ∀ record, homes e record → s'.Houses record after)) :
    s'.Sound homes := by
  refine ⟨fun i slot known => ?_, fun e after known name i held => ?_,
    fun e record after home known => ?_⟩
  · rcases slots i slot known with same | sound'
    · exact (sound.slots i slot same).kept keeps
    · exact sound'
  · obtain ⟨before, known', same, _⟩ := environments e after known
    exact (sound.locals e before known' name i (same ▸ held)).kept keeps
  · obtain ⟨before, known', _, same | houses⟩ := environments e after known
    · subst same
      exact (sound.houses e record after home known').kept keeps
    · exact houses record home

theorem sameBindings (sound : s.Sound homes) (same : s.SameBindings s') : s'.Sound homes := by
  refine sound.step same.grows.toKeeps (fun i slot known => .inl ?_) fun e after known => ?_
  · rwa [slot?, ← same.slots]
  · rw [environment?, same.environments] at known
    exact ⟨after, known, rfl, .inl rfl⟩

theorem modifySlot {i : SlotId} {change : Slot → Slot} (sound : s.Sound homes)
    (kept : ∀ slot, ∃ content, change slot = { slot with content })
    (fits : ∀ slot, s.slot? i = some slot → slot.type ≠ .none →
      ∀ value, (change slot).value? = some value → s.Conforms slot.type value) :
    (s.modifySlot i change).Sound homes := by
  have keeps := (grows_modifySlot (s := s) (i := i) kept).toKeeps
  refine sound.step keeps (fun j slot known => ?_) fun e after known => ⟨after, known, rfl, .inl rfl⟩
  rw [slot?_modifySlot] at known
  by_cases same : i = j
  · subst same
    rw [if_pos rfl] at known
    obtain ⟨before, known', rfl⟩ := Option.map_eq_some_iff.mp known
    obtain ⟨content, changed⟩ := kept before
    right
    have type : (change before).type = before.type := by rw [changed]
    refine ⟨?_, fun typed value held => ?_⟩
    · rw [changed]
      exact (sound.slots i before known').kind
    · rw [type] at typed ⊢
      exact (fits before known' typed value held).kept keeps
  · rw [if_neg same] at known
    exact .inl known

/-- A slot without a type may hold anything. -/
theorem modifySlot_untyped {i : SlotId} {change : Slot → Slot} (sound : s.Sound homes)
    (kept : ∀ slot, ∃ content, change slot = { slot with content })
    (untyped : ∀ slot, s.slot? i = some slot → slot.type = .none) :
    (s.modifySlot i change).Sound homes :=
  sound.modifySlot kept fun slot known typed => absurd (untyped slot known) typed

theorem install {e : EnvironmentId} {name : String} {type : TypeSig} {value : Value}
    (sound : s.Sound homes)
    (declared : ∀ record, homes e record → (name, type) ∈ record.entityTypes)
    (conforms : s.Conforms type value) : (s.install e name value).Sound homes := by
  have keeps := (grows_install s e name value).toKeeps
  refine sound.step keeps (fun i slot known => .inl known) fun e' after known => ?_
  rw [environment?_install] at known
  by_cases same : e = e'
  · subst same
    rw [if_pos rfl] at known
    obtain ⟨before, known', rfl⟩ := Option.map_eq_some_iff.mp known
    refine ⟨before, known', rfl, .inr fun record home => ?_⟩
    have houses := (sound.houses e record before home known').kept keeps
    refine { houses with entities := fun other held found => ?_ }
    rw [Scope.get?_put] at found
    by_cases named : name = other
    · rw [if_pos named] at found
      cases found
      exact ⟨type, named ▸ declared record home, conforms.kept keeps⟩
    · rw [if_neg named] at found
      exact houses.entities other held found
  · rw [if_neg same] at known
    exact ⟨after, known, rfl, .inl rfl⟩

/-- No operation that code can apply breaks soundness. -/
theorem perform {o : Operation κ} {a : o.Answer} (sound : s.Sound homes)
    (ran : o.perform s = .ok (a, s')) : s'.Sound homes := by
  by_cases assigns : ∃ e name value, o = .assign e name value
  · obtain ⟨e, name, value, rfl⟩ := assigns
    obtain ⟨environment, i, known, own, rfl⟩ := assign_eq_ok ran
    apply sound.modifySlot_untyped (setLive_content value)
    intro slot held
    obtain ⟨slot', held', untyped⟩ := sound.locals e environment known name i own
    cases held.symm.trans held'
    exact untyped
  · exact sound.sameBindings
      (sameBindings_perform ran fun e name value same => assigns ⟨e, name, value, same⟩)

end Sound

/-- Steps that grow the store and leave it as sound as it was. -/
def Safe (homes : EnvironmentId → Record κ → Prop) (s s' : Store κ) : Prop :=
  s.Grows s' ∧ (s.Sound homes → s'.Sound homes)

end Store
end MixedModules
