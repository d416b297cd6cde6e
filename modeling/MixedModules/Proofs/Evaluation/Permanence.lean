import MixedModules.Proofs.Evaluation.Body

/-! What stays for good.

Code may assign the own bindings of script modules and nothing else. All other slots, and
all entities, are filled by the module that they belong to. Where a module fills only
what was vacant, every value that was there before is there afterwards. -/
namespace MixedModules.Store

variable {κ : Type} {s s' s'' : Store κ} {e e' : EnvironmentId} {names names' : List String}
  {slots slots' : List SlotId} {i : SlotId}

/-- A slot that code may assign: that of an own binding of some module. -/
def Assignable (s : Store κ) (i : SlotId) : Prop :=
  ∃ e environment, s.environment? e = some environment ∧ i ∈ environment.locals.values

/-- What code may assign it may assign for good. -/
theorem Assignable.grows (assignable : s.Assignable i) (grows : s.Grows s') : s'.Assignable i := by
  obtain ⟨e, environment, known, member⟩ := assignable
  obtain ⟨entities, known'⟩ := grows.environments e environment known
  exact ⟨e, _, known', member⟩

/-- Entities stay what they are, and so does the value of a slot that code cannot assign. -/
structure Fixes (s s' : Store κ) : Prop where
  grows : s.Grows s'
  entities : ∀ e before after, s.environment? e = some before → s'.environment? e = some after →
    ∀ name value, before.entities.get? name = some value → after.entities.get? name = some value
  held : ∀ i slot, ¬ s.Assignable i → s.slot? i = some slot → slot.value? ≠ none →
    s'.slot? i = some slot
  closed : ∀ i slot, s.slot? i = some slot → s'.Assignable i → s.Assignable i

namespace Fixes

theorem refl (s : Store κ) : s.Fixes s where
  grows := .refl s
  entities _ _ _ known known' _ _ held := by
    cases known.symm.trans known'
    exact held
  held _ _ _ known _ := known
  closed _ _ _ assignable := assignable

theorem trans (first : s.Fixes s') (second : s'.Fixes s'') : s.Fixes s'' where
  grows := first.grows.trans second.grows
  entities e before after known known' name value held := by
    obtain ⟨entities, between⟩ := first.grows.environments e before known
    exact second.entities e _ after between known' name value
      (first.entities e before _ known between name value held)
  held i slot apart known value := by
    have between := first.held i slot apart known value
    exact second.held i slot (fun assignable => apart (first.closed i slot known assignable)) between
      value
  closed i slot known assignable := by
    obtain ⟨content, between⟩ := first.grows.slots i slot known
    exact first.closed i slot known (second.closed i _ between assignable)

/-- An entity is read as before. -/
theorem readEntity (fixes : s.Fixes s') {name : String} {value : Value}
    (read : s.readEntity e name = .ok value) : s'.readEntity e name = .ok value := by
  obtain ⟨environment, known, held⟩ := readEntity_eq_ok read
  obtain ⟨entities, known'⟩ := fixes.grows.environments e environment known
  have kept := fixes.entities e environment _ known known' name value held
  unfold Store.readEntity
  rw [environment_eq_ok.mpr known']
  simp only [bind, Except.bind, kept]

/-- A slot that code cannot assign is read as before. -/
theorem readSlot (fixes : s.Fixes s') {value : Value} (apart : ¬ s.Assignable i)
    (read : s.readSlot i = .ok value) : s'.readSlot i = .ok value := by
  obtain ⟨slot, known, held⟩ := readSlot_eq_ok read
  have kept := fixes.held i slot apart known (by simp [held])
  unfold Store.readSlot Slot.read
  simp only [kept, held]

end Fixes

/-- The module of `e` fills names among its entities, and slots. Nothing else changes but
what code may assign. -/
structure Fills (e : EnvironmentId) (names : List String) (slots : List SlotId)
    (s s' : Store κ) : Prop where
  grows : s.Grows s'
  environments : ∀ e' after, s'.environment? e' = some after → ∃ before,
    s.environment? e' = some before ∧ after = { before with entities := after.entities } ∧
      ∀ name, (e' = e → name ∉ names) → after.entities.get? name = before.entities.get? name
  slots : ∀ i, ¬ s.Assignable i → i ∉ slots → s'.slot? i = s.slot? i

/-- Names and slots that the module of `e` can still fill. Code cannot assign these slots. -/
structure Vacant (s : Store κ) (e : EnvironmentId) (names : List String) (slots : List SlotId) :
    Prop where
  names : ∀ environment, s.environment? e = some environment → ∀ name ∈ names,
    environment.entities.get? name = none
  slots : ∀ i ∈ slots, ¬ s.Assignable i ∧ ∀ slot, s.slot? i = some slot → slot.value? = none

theorem Vacant.mono (vacant : s.Vacant e names slots) (fewer : names' ⊆ names)
    (fewer' : slots' ⊆ slots) : s.Vacant e names' slots' :=
  ⟨fun environment known name member => vacant.names environment known name (fewer member),
    fun i member => vacant.slots i (fewer' member)⟩

namespace Fills

theorem refl (s : Store κ) : s.Fills e names slots s :=
  ⟨.refl s, fun _ after known => ⟨after, known, rfl, fun _ _ => rfl⟩, fun _ _ _ => rfl⟩

theorem mono (fills : s.Fills e names slots s') (more : names ⊆ names') (more' : slots ⊆ slots') :
    s.Fills e names' slots' s' := by
  refine ⟨fills.grows, fun e' after known => ?_, fun i apart outside => ?_⟩
  · obtain ⟨before, known', same, entities⟩ := fills.environments e' after known
    exact ⟨before, known', same, fun name outside =>
      entities name fun same member => outside same (more member)⟩
  · exact fills.slots i apart fun member => outside (more' member)

/-- Code may assign the slots that it could assign before. -/
theorem assignable_iff (fills : s.Fills e names slots s') : s'.Assignable i ↔ s.Assignable i := by
  constructor
  · rintro ⟨e', after, known, member⟩
    obtain ⟨before, known', same, _⟩ := fills.environments e' after known
    rw [same] at member
    exact ⟨e', before, known', member⟩
  · rintro ⟨e', before, known, member⟩
    obtain ⟨entities, known'⟩ := fills.grows.environments e' before known
    exact ⟨e', _, known', member⟩

theorem trans (first : s.Fills e names slots s') (second : s'.Fills e names slots s'') :
    s.Fills e names slots s'' := by
  refine ⟨first.grows.trans second.grows, fun e' after known => ?_, fun i apart outside => ?_⟩
  · obtain ⟨between, known', same, entities⟩ := second.environments e' after known
    obtain ⟨before, known'', same', entities'⟩ := first.environments e' between known'
    refine ⟨before, known'', ?_, fun name outside =>
      (entities name outside).trans (entities' name outside)⟩
    rw [same, same']
  · rw [second.slots i (fun assignable => apart (first.assignable_iff.mp assignable)) outside,
      first.slots i apart outside]

/-- What fills vacant names and slots leaves all that is there. -/
theorem fixes (fills : s.Fills e names slots s') (vacant : s.Vacant e names slots) :
    s.Fixes s' := by
  refine ⟨fills.grows, fun e' before after known known' name value held => ?_,
    fun i slot apart known value => ?_, fun i slot _ assignable => fills.assignable_iff.mp assignable⟩
  · obtain ⟨before', known'', _, entities⟩ := fills.environments e' after known'
    cases known.symm.trans known''
    rw [entities name fun same member => ?_, held]
    subst same
    rw [vacant.names before known name member] at held
    cases held
  · rw [fills.slots i apart fun member => value ((vacant.slots i member).2 slot known), known]

/-- What another module fills, or the same one elsewhere, leaves names and slots vacant. -/
theorem vacant (fills : s.Fills e names slots s') (vacant : s.Vacant e' names' slots')
    (apart : e' = e → ∀ name ∈ names', name ∉ names) (apart' : ∀ i ∈ slots', i ∉ slots) :
    s'.Vacant e' names' slots' := by
  refine ⟨fun after known name member => ?_, fun i member => ?_⟩
  · obtain ⟨before, known', _, entities⟩ := fills.environments e' after known
    rw [entities name fun same => apart same name member]
    exact vacant.names before known' name member
  · obtain ⟨unassigned, empty⟩ := vacant.slots i member
    refine ⟨fun assignable => unassigned (fills.assignable_iff.mp assignable), fun slot known => ?_⟩
    rw [fills.slots i unassigned (apart' i member)] at known
    exact empty slot known

end Fills

/-! ## Steps -/

theorem SameBindings.fills (same : s.SameBindings s') : s.Fills e names slots s' := by
  refine ⟨same.grows, fun e' after known => ⟨after, ?_, rfl, fun _ _ => rfl⟩, fun i _ _ => ?_⟩
  · rwa [environment?, ← same.environments]
  · rw [slot?, same.slots, ← slot?]

theorem fills_install (s : Store κ) (e : EnvironmentId) (name : String) (value : Value) :
    s.Fills e [name] [] (s.install e name value) := by
  refine ⟨grows_install s e name value, fun e' after known => ?_, fun i _ _ => rfl⟩
  rw [environment?_install] at known
  split at known
  · next same =>
    obtain ⟨before, known', rfl⟩ := Option.map_eq_some_iff.mp known
    refine ⟨before, known', rfl, fun other outside => ?_⟩
    have apart : name ≠ other := fun named => outside same.symm (by simp [named])
    rw [Scope.get?_put, if_neg apart]
  · exact ⟨after, known, rfl, fun _ _ => rfl⟩

/-- A change of what a slot holds, where it is among those that may be filled or assigned. -/
theorem fills_modifySlot {change : Slot → Slot}
    (kept : ∀ slot, ∃ content, change slot = { slot with content })
    (allowed : s.Assignable i ∨ i ∈ slots) : s.Fills e names slots (s.modifySlot i change) := by
  refine ⟨grows_modifySlot kept, fun e' after known => ⟨after, known, rfl, fun _ _ => rfl⟩,
    fun j unassigned outside => ?_⟩
  rw [slot?_modifySlot, if_neg]
  rintro rfl
  exact allowed.elim unassigned outside

theorem mem_values_of_get? {α : Type} {scope : Scope α} {name : String} {a : α}
    (held : scope.get? name = some a) : a ∈ scope.values := by
  obtain ⟨entry, found, rfl⟩ := Option.map_eq_some_iff.mp held
  exact List.mem_map_of_mem (List.mem_of_find?_eq_some found)

/-- Where values are all different, each has one name. -/
theorem name_eq_of_get? {α : Type} {scope : Scope α} {name other : String} {a : α}
    (apart : scope.values.Nodup) (held : scope.get? name = some a)
    (held' : scope.get? other = some a) : name = other := by
  obtain ⟨entry, found, rfl⟩ := Option.map_eq_some_iff.mp held
  obtain ⟨entry', found', same⟩ := Option.map_eq_some_iff.mp held'
  cases List.inj_on_of_nodup_map apart (List.mem_of_find?_eq_some found')
    (List.mem_of_find?_eq_some found) same
  have named : entry.1 = name := by simpa using List.find?_some found
  have named' : entry.1 = other := by simpa using List.find?_some found'
  exact named.symm.trans named'

/-- An operation fills nothing. -/
theorem respected_fills (e : EnvironmentId) : Respected (Fills (κ := κ) e [] []) := by
  refine ⟨fun s => .refl s, fun _ _ _ first second => first.trans second, fun o s a s' ran => ?_⟩
  by_cases assigns : ∃ e name value, o = .assign e name value
  · obtain ⟨e', name, value, rfl⟩ := assigns
    obtain ⟨environment, i, known, own, rfl⟩ := assign_eq_ok ran
    exact fills_modifySlot (setLive_content value)
      (.inl ⟨e', environment, known, mem_values_of_get? own⟩)
  · exact (sameBindings_perform ran fun e name value same => assigns ⟨e, name, value, same⟩).fills

theorem respected_fixes : Respected (κ := κ) Fixes := by
  refine ⟨Fixes.refl, fun _ _ _ first second => first.trans second, fun o s a s' ran => ?_⟩
  exact ((respected_fills ⟨0⟩).operations o s a s' ran).fixes ⟨by simp, by simp⟩

theorem fills_observeImport {environment : Environment} {b : ImportBinding}
    (ran : observeImport e environment b s = .ok ((), s')) :
    s.Fills e [b.localName] [b.own] s' := by
  have install (s : Store κ) (value : Value) :
      s.Fills e [b.localName] [b.own] (s.install e b.localName value) :=
    (fills_install s e b.localName value).mono (List.Subset.refl _) (List.nil_subset _)
  have capture (s : Store κ) (value : Value) : s.Fills e [b.localName] [b.own]
      (s.modifySlot b.own fun slot => slot.setSnapshot value) :=
    fills_modifySlot (setSnapshot_content value) (.inr List.mem_cons_self)
  cases importStep_of_observeImport ran with
  | left => exact .refl s
  | installed => exact install s _
  | captured => exact capture s _
  | checked _ _ _ observes =>
    exact ((observe_spec observes).1.fills.trans (capture _ _)).trans (install _ _)

section Definitions

theorem fills_defineGlobal {d : GlobalDef} (ran : defineGlobal e d s = .ok ((), s')) :
    s.Fills e [d.name] [] s' := by
  obtain ⟨initial, g, s₁, made, rfl⟩ := defineGlobal_eq_ok ran
  exact (sameBindings_newGlobal made).1.fills.trans (fills_install s₁ e d.name (.global g))

theorem fills_defineMemory {d : SizedDef} (ran : defineMemory e d s = .ok ((), s')) :
    s.Fills e [d.name] [] s' := by
  unfold defineMemory at ran
  obtain ⟨⟨m, s₁⟩, made, ran⟩ := bind_eq_ok ran
  cases ran
  exact (sameBindings_newMemory made).1.fills.trans (fills_install s₁ e d.name (.memory m))

theorem fills_defineTable {d : SizedDef} (ran : defineTable e d s = .ok ((), s')) :
    s.Fills e [d.name] [] s' := by
  unfold defineTable at ran
  obtain ⟨⟨t, s₁⟩, made, ran⟩ := bind_eq_ok ran
  cases ran
  exact (sameBindings_newTable made).1.fills.trans (fills_install s₁ e d.name (.table t))

theorem fills_defineFunction {d : FuncDef κ} (ran : defineFunction e d s = .ok ((), s')) :
    s.Fills e [d.name] [] s' := by
  unfold defineFunction at ran
  cases ran
  have added : s.Fills e [d.name] [] (s.addFunction d.name (.binary d.type d.code e)).2 :=
    ⟨grows_addFunction .., fun _ after known => ⟨after, known, rfl, fun _ _ => rfl⟩, fun _ _ _ => rfl⟩
  exact added.trans (fills_install _ e d.name (.function _))

end Definitions

/-- An environment as it was but for its entities. -/
def Shows (s : Store κ) (e : EnvironmentId) (environment : Environment) : Prop :=
  ∃ entities, s.environment? e = some { environment with entities }

theorem Shows.kept {environment : Environment} (shows : s.Shows e environment) (grows : s.Grows s') :
    s'.Shows e environment := by
  obtain ⟨entities, known⟩ := shows
  obtain ⟨entities', known'⟩ := grows.environments e _ known
  exact ⟨entities', known'⟩

/-- Publishing fills slots of exports. -/
theorem fills_publishAll {environment : Environment} {decls : List (ExportDecl κ)}
    (shows : s.Shows e environment) (ran : publishAll e decls s = .ok ((), s')) :
    s.Fills e [] environment.exports.values s' := by
  unfold publishAll at ran
  obtain ⟨last, folded, same⟩ := bind_eq_ok ran
  obtain rfl : last = s' := by
    cases same
    rfl
  clear ran same
  induction decls generalizing s with
  | nil =>
    cases folded
    exact .refl last
  | cons decl rest ih =>
    obtain ⟨next, first, folded⟩ := bind_eq_ok folded
    have step : s.Fills e [] environment.exports.values next := by
      rcases publish_eq_ok first with rfl | ⟨name, _, published⟩
      · exact .refl next
      obtain ⟨there, value, known, _, ⟨_, rfl⟩ | ⟨i, slot, rfl⟩⟩ := publishEntity_eq_ok published
      · exact .refl next
      obtain ⟨entities, known'⟩ := shows
      cases known.symm.trans known'
      exact fills_modifySlot (setLive_content value) (.inr (mem_values_of_get? slot))
    exact step.trans (ih (shows.kept step.grows) folded)

/-! ## What publishing puts -/

section Publishing

variable {decl : ExportDecl κ} {name : String}

theorem readSlot_of_value {slot : Slot} {value : Value} (known : s.slot? i = some slot)
    (held : slot.value? = some value) : s.readSlot i = .ok value := by
  unfold readSlot Slot.read
  simp only [known, held]

theorem readEntity_congr (same : s'.environment? e = s.environment? e) :
    s'.readEntity e name = s.readEntity e name := by
  unfold readEntity Store.environment
  rw [same]

/-- An entity that is put is read from then on, and all others are read as before. -/
theorem readEntity_install {environment : Environment} (known : s.environment? e = some environment)
    (name other : String) (value : Value) : (s.install e name value).readEntity e other =
      if name = other then .ok value else s.readEntity e other := by
  unfold readEntity
  rw [environment_eq_ok.mpr known,
    environment_eq_ok.mpr (by rw [environment?_install, if_pos rfl, known]; rfl)]
  simp only [bind, Except.bind, Scope.get?_put, Environment.unbound]
  by_cases same : name = other
  · simp only [if_pos same]
  · simp only [if_neg same]

/-- Publishing an export gives its slot the entity that it names. -/
theorem publish_reads (ran : publish e s decl = .ok s')
    (source : decl.source = .own name ∨ decl.source = .observed name) :
    ∃ environment value, s.environment? e = some environment ∧ s'.readEntity e name = .ok value ∧
      ∀ i slot, environment.exports.get? decl.name = some i → s.slot? i = some slot →
        s'.readSlot i = .ok value := by
  have published : publishEntity e s decl.name name = .ok s' := by
    unfold publish at ran
    rcases source with source | source <;> rwa [source] at ran
  obtain ⟨environment, value, known, held, change⟩ := publishEntity_eq_ok published
  have same : s'.environment? e = some environment := by
    rcases change with ⟨_, rfl⟩ | ⟨i, _, rfl⟩
    · exact known
    · exact known
  refine ⟨environment, value, known, ?_, fun i slot given there => ?_⟩
  · unfold readEntity
    rw [environment_eq_ok.mpr same]
    simp only [bind, Except.bind, held]
  · rcases change with ⟨none, _⟩ | ⟨j, given', rfl⟩
    · rw [given] at none
      cases none
    · cases given.symm.trans given'
      have set : (s.modifySlot i fun slot => slot.setLive value).slot? i = some (slot.setLive value) := by
        rw [slot?_modifySlot, if_pos rfl, there]
        rfl
      exact readSlot_of_value set rfl

/-- Publishing leaves environments alone, and slots that are not those of its exports. -/
theorem publishes_keep {decls : List (ExportDecl κ)} (ran : decls.foldlM (publish e) s = .ok s') :
    s'.environments = s.environments ∧ ∀ environment, s.environment? e = some environment →
      ∀ i, (∀ decl ∈ decls, environment.exports.get? decl.name ≠ some i) → s'.slot? i = s.slot? i := by
  induction decls generalizing s with
  | nil =>
    cases ran
    exact ⟨rfl, fun _ _ _ _ => rfl⟩
  | cons decl rest ih =>
    obtain ⟨next, first, ran⟩ := bind_eq_ok ran
    obtain ⟨same, others⟩ := ih ran
    rcases publish_eq_ok first with rfl | ⟨name, _, published⟩
    · exact ⟨same, fun environment known i outside =>
        others environment known i fun other member => outside other (List.mem_cons_of_mem _ member)⟩
    obtain ⟨there, value, present, _, ⟨_, rfl⟩ | ⟨j, given, rfl⟩⟩ := publishEntity_eq_ok published
    · exact ⟨same, fun environment known i outside =>
        others environment known i fun other member => outside other (List.mem_cons_of_mem _ member)⟩
    refine ⟨same, fun environment known i outside => ?_⟩
    cases present.symm.trans known
    have apart : j ≠ i := by
      rintro rfl
      exact outside decl List.mem_cons_self given
    rw [others there present i fun other member => outside other (List.mem_cons_of_mem _ member),
      slot?_modifySlot, if_neg apart]

/-- When all exports are published each has the entity that it names. -/
theorem publishAll_reads {decls : List (ExportDecl κ)} (distinct : (decls.map (·.name)).Nodup)
    (apart : ∀ environment, s.environment? e = some environment → environment.exports.values.Nodup)
    (ran : publishAll e decls s = .ok ((), s')) (declared : decl ∈ decls)
    (source : decl.source = .own name ∨ decl.source = .observed name) :
    ∃ environment value, s.environment? e = some environment ∧ s'.readEntity e name = .ok value ∧
      ∀ i slot, environment.exports.get? decl.name = some i → s.slot? i = some slot →
        s'.readSlot i = .ok value := by
  obtain ⟨last, folded, same⟩ := bind_eq_ok ran
  obtain rfl : last = s' := by
    cases same
    rfl
  clear ran same
  induction decls generalizing s with
  | nil => cases declared
  | cons first rest ih =>
    obtain ⟨next, published, onward⟩ := bind_eq_ok folded
    obtain ⟨fresh, distinct'⟩ := List.nodup_cons.mp distinct
    have once : [first].foldlM (publish e) s = .ok next := by
      simp only [List.foldlM_cons, published]
      rfl
    obtain ⟨same, others⟩ := publishes_keep once
    have environments : next.environment? e = s.environment? e := by
      rw [environment?, same, ← environment?]
    rcases List.mem_cons.mp declared with rfl | later
    · obtain ⟨environment, value, known, read, reads⟩ := publish_reads published source
      obtain ⟨same', others'⟩ := publishes_keep onward
      refine ⟨environment, value, known, ?_, fun i slot given there => ?_⟩
      · have same : last.environment? e = next.environment? e := by
          rw [environment?, same', ← environment?]
        exact (readEntity_congr same).trans read
      · have kept : last.slot? i = next.slot? i := by
          refine others' environment (environments.trans known) i fun other member given' => fresh ?_
          exact List.mem_map.mpr ⟨other, member, name_eq_of_get? (apart environment known) given' given⟩
        rw [readSlot, kept, ← readSlot]
        exact reads i slot given there
    · rw [← environments] at apart
      obtain ⟨environment, value, known, read, reads⟩ := ih distinct' apart later onward
      have known' := environments.symm.trans known
      refine ⟨environment, value, known', read, fun i slot given there => reads i slot given ?_⟩
      rw [others environment known' i fun other member given' => ?_, there]
      cases List.mem_singleton.mp member
      exact fresh (List.mem_map.mpr ⟨decl, later, name_eq_of_get? (apart environment known) given given'⟩)

end Publishing

end MixedModules.Store
