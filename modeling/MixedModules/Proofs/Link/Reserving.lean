import MixedModules.Proofs.Evaluation.Filling
import MixedModules.Proofs.Link.Housing

/-! Slots that only one module fills.

Linking makes every slot anew and never writes to one. So the slot of a captured import is
that of one import of one module, an export of a binary module has a slot of its own, and
code can assign neither. All of them are empty when their module is linked. -/
namespace MixedModules

variable {κ : Type}

namespace Scope

variable {α : Type} {scope : Scope α} {name : String} {a b : α}

/-- What is put under a name takes the place of what was there, or comes last. -/
theorem values_put (scope : Scope α) (name : String) (a : α) :
    (∃ first old rest, scope.values = first ++ old :: rest ∧
        (scope.put name a).values = first ++ a :: rest) ∨
      (scope.put name a).values = scope.values ++ [a] := by
  have parts : ∀ entries : List (String × α), (∃ first old rest,
      entries.map (·.2) = first ++ old :: rest ∧
        (putIn name a entries).map (·.2) = first ++ a :: rest) ∨
      (putIn name a entries).map (·.2) = entries.map (·.2) ++ [a] := by
    intro entries
    induction entries with
    | nil => exact .inr rfl
    | cons entry more ih =>
      unfold putIn
      split
      · exact .inl ⟨[], entry.2, more.map (·.2), rfl, rfl⟩
      · rcases ih with ⟨first, old, rest, before, after⟩ | last
        · refine .inl ⟨entry.2 :: first, old, rest, ?_, ?_⟩
          · simp [before]
          · simp [after]
        · exact .inr (by simp [last])
  exact parts scope.entries

/-- Values stay apart if one more is put that is apart from all. -/
theorem nodup_values_put {β : Type} {f : α → β} (apart : (scope.values.map f).Nodup)
    (fresh : f a ∉ scope.values.map f) : ((scope.put name a).values.map f).Nodup := by
  rcases values_put scope name a with ⟨first, old, rest, before, after⟩ | last
  · rw [before] at apart fresh
    rw [after]
    simp only [List.map_append, List.map_cons, List.nodup_append, List.nodup_cons, List.mem_append,
      List.mem_cons, not_or] at apart fresh ⊢
    refine ⟨apart.1, ⟨fresh.2.2, apart.2.1.2⟩, fun x early y later => ?_⟩
    rcases later with rfl | later
    · rintro rfl
      exact fresh.1 early
    · exact apart.2.2 x early y (.inr later)
  · rw [last]
    simp only [List.map_append, List.map_cons, List.map_nil, List.nodup_append]
    refine ⟨apart, by simp, fun x held y only => ?_⟩
    rw [List.mem_singleton.mp only]
    rintro rfl
    exact fresh held

/-- What stands in a scope is found under its name, where names are all different. -/
theorem get?_of_mem (distinct : scope.names.Nodup) (member : (name, a) ∈ scope.entries) :
    scope.get? name = some a := by
  obtain ⟨entries⟩ := scope
  unfold Scope.names at distinct
  unfold Scope.get?
  simp only at distinct member ⊢
  induction entries with
  | nil => cases member
  | cons entry rest ih =>
    obtain ⟨fresh, distinct⟩ := List.nodup_cons.mp distinct
    rcases List.mem_cons.mp member with rfl | later
    · simp
    · have other : entry.1 ≠ name := by
        rintro rfl
        exact fresh (List.mem_map.mpr ⟨_, later, rfl⟩)
      simpa [other] using ih distinct later

theorem exists_get?_of_mem_values (distinct : scope.names.Nodup) (member : a ∈ scope.values) :
    ∃ name, scope.get? name = some a := by
  obtain ⟨entry, held, rfl⟩ := List.mem_map.mp member
  exact ⟨entry.1, get?_of_mem distinct held⟩

/-- A name that is put comes once. -/
theorem nodup_names_put (distinct : scope.names.Nodup) (name : String) (a : α) :
    (scope.put name a).names.Nodup := by
  have parts : ∀ entries : List (String × α), (putIn name a entries).map (·.1) =
      if name ∈ entries.map (·.1) then entries.map (·.1) else entries.map (·.1) ++ [name] := by
    intro entries
    induction entries with
    | nil => simp [putIn]
    | cons entry rest ih => grind [putIn]
  change ((putIn name a scope.entries).map (·.1)).Nodup
  rw [parts]
  split
  · exact distinct
  · next fresh =>
    exact List.nodup_append.mpr ⟨distinct, by simp, fun x held y only => by
      rw [List.mem_singleton.mp only]
      rintro rfl
      exact fresh held⟩

end Scope

namespace Store

variable {s s' s'' base : Store κ} {e : EnvironmentId} {i : SlotId} {record : Record κ}

/-- Reserved slots are there, those of a module are apart from each other, from those of any
other module and from what code may assign. What code may assign belongs to one module. -/
structure Reserved (s : Store κ) : Prop where
  untyped : ∀ i, s.Assignable i → s.SlotTyped i .none
  parted : ∀ e e' environment environment' i, s.environment? e = some environment →
    s.environment? e' = some environment' → i ∈ environment.locals.values →
      i ∈ environment'.locals.values → e = e'
  inside : ∀ e environment i, s.environment? e = some environment → i ∈ environment.reserved →
    ∃ slot, s.slot? i = some slot
  once : ∀ e environment, s.environment? e = some environment → environment.reserved.Nodup
  own : ∀ e e' environment environment' i, s.environment? e = some environment →
    s.environment? e' = some environment' → i ∈ environment.reserved →
      i ∈ environment'.reserved → e = e'
  kept : ∀ e environment i, s.environment? e = some environment → i ∈ environment.reserved →
    ¬ s.Assignable i

/-- The slots that a binary module publishes are apart from each other, and code may not assign
them. -/
theorem Reserved.exports_apart {environment : Environment} (reserved : s.Reserved)
    (present : s.environment? e = some environment) (binary : environment.kind = .binary) :
    environment.exports.values.Nodup ∧ ∀ i ∈ environment.exports.values, ¬ s.Assignable i := by
  rw [← Environment.published_of_binary binary]
  exact ⟨(List.nodup_append.mp (reserved.once e environment present)).2.1,
    fun i member => reserved.kept e environment i present (List.mem_append_right _ member)⟩

/-- Nothing is reserved in a store without environments. -/
theorem Reserved.empty : (Store.empty : Store κ).Reserved := by
  have none : ∀ e environment, (Store.empty : Store κ).environment? e ≠ some environment := by
    intro e environment known
    cases known
  exact ⟨fun i ⟨e, environment, known, _⟩ => absurd known (none e environment),
    fun e _ environment _ _ known => absurd known (none e environment),
    fun e environment _ known => absurd known (none e environment),
    fun e environment known => absurd known (none e environment),
    fun e _ environment _ _ known => absurd known (none e environment),
    fun e environment _ known => absurd known (none e environment)⟩

/-- Nothing is reserved anew where a module fills what is its own. -/
theorem Reserved.fills {names : List String} {slots : List SlotId} (reserved : s.Reserved)
    (fills : s.Fills e names slots s') : s'.Reserved := by
  have before : ∀ e after, s'.environment? e = some after → ∃ before,
      s.environment? e = some before ∧ before.reserved = after.reserved ∧
        before.locals = after.locals := by
    intro e' after known
    obtain ⟨before, known', same, _⟩ := fills.environments e' after known
    refine ⟨before, known', ?_, ?_⟩
    · rw [same]
      rfl
    · rw [same]
  refine ⟨fun i assignable => ?_, fun e₁ e₂ after after' i known known' member member' => ?_,
    fun e' after i known member => ?_, fun e' after known => ?_,
    fun e₁ e₂ after after' i known known' member member' => ?_, fun e' after i known member => ?_⟩
  · exact (reserved.untyped i (fills.assignable_iff.mp assignable)).kept fills.grows.toKeeps
  · obtain ⟨there, here, _, same⟩ := before e₁ after known
    obtain ⟨there', here', _, same'⟩ := before e₂ after' known'
    exact reserved.parted e₁ e₂ there there' i here here' (same ▸ member) (same' ▸ member')
  · obtain ⟨there, known', same, _⟩ := before e' after known
    obtain ⟨slot, held⟩ := reserved.inside e' there i known' (same ▸ member)
    obtain ⟨content, held'⟩ := fills.grows.slots i slot held
    exact ⟨_, held'⟩
  · obtain ⟨there, known', same, _⟩ := before e' after known
    exact same ▸ reserved.once e' there known'
  · obtain ⟨there, here, same, _⟩ := before e₁ after known
    obtain ⟨there', here', same', _⟩ := before e₂ after' known'
    exact reserved.own e₁ e₂ there there' i here here' (same ▸ member) (same' ▸ member')
  · obtain ⟨there, known', same, _⟩ := before e' after known
    rw [fills.assignable_iff]
    exact reserved.kept e' there i known' (same ▸ member)

/-! ## Slots that are made -/

/-- Slots are added, and nothing that code or modules refer to changes. -/
structure Adds (s s' : Store κ) : Prop where
  environments : s'.environments = s.environments
  slots : ∀ i slot, s.slot? i = some slot → s'.slot? i = some slot
  functions : ∀ f function, s.function f = .ok function → s'.function f = .ok function
  more : s.slots.size ≤ s'.slots.size

namespace Adds

theorem refl (s : Store κ) : s.Adds s :=
  ⟨rfl, fun _ _ known => known, fun _ _ known => known, Nat.le_refl _⟩

theorem trans (first : s.Adds s') (second : s'.Adds s'') : s.Adds s'' :=
  ⟨second.environments.trans first.environments,
    fun i slot known => second.slots i slot (first.slots i slot known),
    fun f function known => second.functions f function (first.functions f function known),
    Nat.le_trans first.more second.more⟩

theorem addSlot (s : Store κ) (slot : Slot) : s.Adds (s.addSlot slot).2 := by
  refine ⟨rfl, fun i held known => ?_, fun _ _ known => known, ?_⟩
  · rw [slot?_addSlot, if_neg, known]
    have inside := (Array.getElem?_eq_some_iff.mp known).1
    omega
  · simp [Store.addSlot]

theorem addFunction (s : Store κ) (name : String) (callable : Callable κ) :
    s.Adds (s.addFunction name callable).2 :=
  ⟨rfl, fun _ _ known => known, (grows_addFunction s name callable).functions,
    Nat.le_refl _⟩

theorem environment? (adds : s.Adds s') : s'.environment? e = s.environment? e := by
  rw [Store.environment?, adds.environments, ← Store.environment?]

end Adds

/-- A slot that was made since `s`, with a given property. -/
def Made (s s' : Store κ) (property : Slot → Prop) (i : SlotId) : Prop :=
  s.slots.size ≤ i.index ∧ ∃ slot, s'.slot? i = some slot ∧ property slot

namespace Made

variable {property : Slot → Prop}

theorem kept (made : s.Made s' property i) (adds : s'.Adds s'') : s.Made s'' property i := by
  obtain ⟨new, slot, known, holds⟩ := made
  exact ⟨new, slot, adds.slots i slot known, holds⟩

/-- A slot that is there was not made since. -/
theorem not_known (made : s.Made s' property i) {slot : Slot} : s.slot? i ≠ some slot := by
  intro known
  have inside := (Array.getElem?_eq_some_iff.mp known).1
  have new := made.1
  omega

theorem addSlot (adds : s.Adds s') (slot : Slot) (holds : property slot) :
    s.Made (s'.addSlot slot).2 property (s'.addSlot slot).1 := by
  refine ⟨adds.more, slot, ?_, holds⟩
  rw [slot?_addSlot]
  exact if_pos rfl

/-- A slot that is made next is none of those that were made. -/
theorem fresh (made : s.Made s' property i) (slot : Slot) : i ≠ (s'.addSlot slot).1 := by
  rintro rfl
  obtain ⟨_, held, known, _⟩ := made
  have inside := (Array.getElem?_eq_some_iff.mp known).1
  exact Nat.lt_irrefl _ inside

end Made

/-! ## Allocation -/

section Allocation

variable (identity : String) {locals : Scope SlotId} {bindings : Bindings}

/-- Own bindings have slots that were made since, without a type. -/
def MakesOwn (s s' : Store κ) (locals : Scope SlotId) : Prop :=
  ∀ i ∈ locals.values, s.Made s' (·.type = .none) i

theorem MakesOwn.kept (makes : s.MakesOwn s' locals) (adds : s'.Adds s'') : s.MakesOwn s'' locals :=
  fun i member => (makes i member).kept adds

theorem MakesOwn.put (makes : s.MakesOwn s' locals) (adds : s.Adds s') (name : String) (slot : Slot)
    (untyped : slot.type = .none) :
    s.MakesOwn (s'.addSlot slot).2 (locals.put name (s'.addSlot slot).1) := by
  intro i member
  rcases Links.mem_values_put member with rfl | member
  · exact .addSlot adds slot untyped
  · exact (makes i member).kept (.addSlot s' slot)

theorem makes_declareFunctions (home : EnvironmentId) (decls : List (ExportDecl κ))
    (adds : s.Adds s') (makes : s.MakesOwn s' locals) :
    s.Adds (decls.foldl (declareFunction identity home) (locals, s')).2 ∧
      s.MakesOwn (decls.foldl (declareFunction identity home) (locals, s')).2
        (decls.foldl (declareFunction identity home) (locals, s')).1 := by
  induction decls generalizing locals s' with
  | nil => exact ⟨adds, makes⟩
  | cons decl rest ih =>
    have step : s.Adds (declareFunction identity home (locals, s') decl).2 ∧
        s.MakesOwn (declareFunction identity home (locals, s') decl).2
          (declareFunction identity home (locals, s') decl).1 := by
      unfold declareFunction
      cases decl.source with
      | declaration code =>
        have added := adds.trans (.addFunction s' decl.name (.script code home))
        have makes := makes.kept (.addFunction s' decl.name (.script code home))
        exact ⟨added.trans (.addSlot _ _), makes.put added decl.name _ rfl⟩
      | own | observed | indirect => exact ⟨adds, makes⟩
    exact ih step.1 step.2

/-- Exports of a binary module have slots of their own, typed and empty. -/
def MakesExports (s s' : Store κ) (kind : ModuleKind) (exports : Scope SlotId) : Prop :=
  kind = .binary → exports.values.Nodup ∧
    ∀ i ∈ exports.values, s.Made s' (fun slot => slot.type ≠ .none ∧ slot.content = .uninitialized) i

private theorem makes_separate {kind : ModuleKind} {exports : Scope SlotId} (adds : s.Adds s')
    (makes : s.MakesExports s' kind exports) (name : String) (slot : Slot)
    (typed : kind = .binary → slot.type ≠ .none) (empty : slot.content = .uninitialized) :
    s.MakesExports (s'.addSlot slot).2 kind (exports.put name (s'.addSlot slot).1) := by
  intro binary
  obtain ⟨apart, made⟩ := makes binary
  constructor
  · have fresh : (s'.addSlot slot).1 ∉ exports.values := fun member =>
      (made _ member).fresh slot rfl
    have ids : ((exports.put name (s'.addSlot slot).1).values.map id).Nodup :=
      Scope.nodup_values_put (by simpa using apart) (by simpa using fresh)
    simpa using ids
  · intro i member
    rcases Links.mem_values_put member with rfl | member
    · exact .addSlot adds slot ⟨typed binary, empty⟩
    · exact (made i member).kept (.addSlot s' slot)

theorem makes_exportSlot {decl : ExportDecl κ} (fits : record.WellFormed)
    (declared : decl ∈ record.exports) (adds : s.Adds s') (own : s.MakesOwn s' bindings.locals)
    (makes : s.MakesExports s' record.kind bindings.exports) :
    let (bindings', s'') := exportSlot identity record.kind (bindings, s') decl
    s.Adds s'' ∧ s.MakesOwn s'' bindings'.locals ∧
      s.MakesExports s'' record.kind bindings'.exports := by
  have typed : record.kind = .binary → decl.type ≠ .none := by
    intro binary
    cases shape : record.body with
    | script code => simp [Record.kind, shape] at binary
    | binary body => exact export_typed fits shape declared
  have slotted := Adds.addSlot s' ⟨identity, decl.name, decl.kind, decl.type, .uninitialized⟩
  have separate := makes_separate adds makes decl.name
    ⟨identity, decl.name, decl.kind, decl.type, .uninitialized⟩ typed rfl
  unfold exportSlot
  cases source : decl.source with
  | own name =>
    cases shape : record.kind with
    | script =>
      unfold ownSlot
      refine ⟨?_, ?_, fun binary => by cases binary⟩
      · cases bindings.locals.get? name with
        | some i => exact adds
        | none => exact adds.trans (.addSlot _ _)
      · cases bindings.locals.get? name with
        | some i => exact own
        | none => exact own.put adds name _ rfl
    | binary => exact ⟨adds.trans slotted, own.kept slotted, shape ▸ separate⟩
  | declaration code =>
    cases held : bindings.locals.get? decl.name with
    | none =>
      simp only [held]
      exact ⟨adds, own, makes⟩
    | some i =>
      simp only [held]
      refine ⟨adds, own, fun binary => ?_⟩
      rw [fits.script_of_declaration declared source] at binary
      cases binary
  | observed localName => exact ⟨adds.trans slotted, own.kept slotted, separate⟩
  | indirect specifier name => exact ⟨adds, own, makes⟩

theorem makes_exportSlots (fits : record.WellFormed) {decls : List (ExportDecl κ)}
    (declared : ∀ decl ∈ decls, decl ∈ record.exports) (adds : s.Adds s')
    (own : s.MakesOwn s' bindings.locals)
    (makes : s.MakesExports s' record.kind bindings.exports) :
    let (bindings', s'') := decls.foldl (exportSlot identity record.kind) (bindings, s')
    s.Adds s'' ∧ s.MakesOwn s'' bindings'.locals ∧
      s.MakesExports s'' record.kind bindings'.exports := by
  induction decls generalizing bindings s' with
  | nil => exact ⟨adds, own, makes⟩
  | cons decl rest ih =>
    obtain ⟨adds, own, makes⟩ :=
      makes_exportSlot identity fits (declared decl List.mem_cons_self) adds own makes
    exact ih (fun other member => declared other (List.mem_cons_of_mem _ member)) adds own makes

/-- The slots of a module are made when it is staged. -/
theorem allocate_makes (s : Store κ) (fits : record.WellFormed) :
    ∃ s₁ environment, s.allocate identity record = s₁.addEnvironment environment ∧ s.Adds s₁ ∧
      environment.kind = record.kind ∧ environment.imports = .empty ∧
      environment.entities = .empty ∧ s.MakesOwn s₁ environment.locals ∧
      s.MakesExports s₁ record.kind environment.exports := by
  have none : s.MakesOwn s .empty := by simp [MakesOwn, Scope.values, Scope.empty]
  obtain ⟨adds, own⟩ := makes_declareFunctions identity ⟨s.environments.size⟩ record.exports
    (.refl s) none
  have start : ∀ bindings : Bindings, bindings.exports = .empty → ∀ s' : Store κ,
      s.MakesExports s' record.kind bindings.exports := by
    rintro bindings same s' -
    rw [same]
    exact ⟨by simp [Scope.values, Scope.empty], by simp [Scope.values, Scope.empty]⟩
  obtain ⟨adds, own, makes⟩ := makes_exportSlots identity fits (fun _ member => member) adds own
    (start ⟨_, .empty⟩ rfl _)
  exact ⟨_, _, rfl, adds, rfl, rfl, rfl, own, makes⟩

end Allocation

/-! ## Environments that are placed -/

/-- The environment of a module is placed in a store, the first one or another one. Its slots
were made since, or the module had them already. -/
structure Places (s s₁ s₂ : Store κ) (e : EnvironmentId) (environment : Environment) : Prop where
  adds : s.Adds s₁
  slots : s₂.slots = s₁.slots
  here : s₂.environment? e = some environment
  others : ∀ e', e' ≠ e → s₂.environment? e' = s.environment? e'
  once : environment.reserved.Nodup
  own : (∀ i ∈ environment.locals.values, s.Made s₁ (·.type = .none) i) ∨
    ∃ before, s.environment? e = some before ∧ environment.locals = before.locals
  holds : ∀ i ∈ environment.reserved,
    (∃ before, s.environment? e = some before ∧ i ∈ before.reserved) ∨
      s.Made s₁ (·.content = .uninitialized) i ∧ i ∉ environment.locals.values

namespace Places

variable {s₁ s₂ : Store κ} {e' : EnvironmentId} {environment after : Environment}
  (places : s.Places s₁ s₂ e environment)

include places

theorem slot?_eq (i : SlotId) : s₂.slot? i = s₁.slot? i := by
  rw [slot?, places.slots, ← slot?]

theorem kept {slot : Slot} (held : s.slot? i = some slot) : s₂.slot? i = some slot :=
  (places.slot?_eq i).trans (places.adds.slots i slot held)

theorem made {property : Slot → Prop} (made : s.Made s₁ property i) :
    ∃ slot, s₂.slot? i = some slot ∧ property slot := by
  obtain ⟨_, slot, there, holds⟩ := made
  exact ⟨slot, (places.slot?_eq i).trans there, holds⟩

/-- An environment is the one that was placed, or one that was there. -/
theorem present (there : s₂.environment? e' = some after) :
    e' = e ∧ after = environment ∨ e' ≠ e ∧ s.environment? e' = some after := by
  by_cases same : e' = e
  · subst same
    exact .inl ⟨rfl, Option.some.inj (there.symm.trans places.here)⟩
  · exact .inr ⟨same, (places.others e' same).symm.trans there⟩

/-- What code may assign was made for an own binding, or could be assigned before. -/
theorem assignable (held : s₂.Assignable i) :
    s.Made s₁ (·.type = .none) i ∧ i ∈ environment.locals.values ∨ s.Assignable i := by
  obtain ⟨e', after, there, member⟩ := held
  rcases places.present there with ⟨rfl, rfl⟩ | ⟨_, before⟩
  · rcases places.own with made | ⟨before, there, same⟩
    · exact .inl ⟨made i member, member⟩
    · exact .inr ⟨_, before, there, same ▸ member⟩
  · exact .inr ⟨e', after, before, member⟩

/-- What a module may assign now it could assign before, or nobody could. -/
theorem parted (reserved : s.Reserved) (other : e' ≠ e) (there : s.environment? e' = some after)
    (member : i ∈ after.locals.values) : i ∉ environment.locals.values := by
  intro mine
  rcases places.own with made | ⟨before, there', same⟩
  · obtain ⟨slot, known, _⟩ := reserved.untyped i ⟨e', after, there, member⟩
    exact (made i mine).not_known known
  · exact other (reserved.parted e' e after before i there there' member (same ▸ mine))

theorem unassigned {slot : Slot} (known : s.slot? i = some slot) (apart : ¬ s.Assignable i) :
    ¬ s₂.Assignable i := by
  intro held
  rcases places.assignable held with ⟨made, _⟩ | held
  · exact made.not_known known
  · exact apart held

/-- A slot that the module has now was its own before, or nobody's. -/
theorem apart (reserved : s.Reserved) (other : e' ≠ e) (there : s.environment? e' = some after)
    (member : i ∈ after.reserved) : i ∉ environment.reserved := by
  intro mine
  rcases places.holds i mine with ⟨before, there', old⟩ | ⟨made, _⟩
  · exact other (reserved.own e' e after before i there there' member old)
  · obtain ⟨slot, held⟩ := reserved.inside e' after i there member
    exact made.not_known held

/-- Placing an environment keeps reserved slots apart. -/
theorem reserved (reserved : s.Reserved) : s₂.Reserved where
  untyped i held := by
    rcases places.assignable held with ⟨made, _⟩ | held
    · exact places.made made
    · obtain ⟨slot, there, untyped⟩ := reserved.untyped i held
      exact ⟨slot, places.kept there, untyped⟩
  parted e₁ e₂ after after' i there there' member member' := by
    rcases places.present there with ⟨rfl, rfl⟩ | ⟨other, there⟩ <;>
      rcases places.present there' with ⟨rfl, rfl⟩ | ⟨other', there'⟩
    · rfl
    · exact absurd member (places.parted reserved other' there' member')
    · exact absurd member' (places.parted reserved other there member)
    · exact reserved.parted e₁ e₂ after after' i there there' member member'
  inside e' after i there member := by
    rcases places.present there with ⟨rfl, rfl⟩ | ⟨_, there⟩
    · rcases places.holds i member with ⟨before, there, old⟩ | ⟨made, _⟩
      · exact (reserved.inside _ before i there old).imp fun _ => places.kept
      · exact (places.made made).imp fun _ => And.left
    · exact (reserved.inside e' after i there member).imp fun _ => places.kept
  once e' after there := by
    rcases places.present there with ⟨rfl, rfl⟩ | ⟨_, there⟩
    · exact places.once
    · exact reserved.once e' after there
  own e₁ e₂ after after' i there there' member member' := by
    rcases places.present there with ⟨rfl, rfl⟩ | ⟨other, there⟩ <;>
      rcases places.present there' with ⟨rfl, rfl⟩ | ⟨other', there'⟩
    · rfl
    · exact absurd member (places.apart reserved other' there' member')
    · exact absurd member' (places.apart reserved other there member)
    · exact reserved.own e₁ e₂ after after' i there there' member member'
  kept e' after i there member held := by
    rcases places.present there with ⟨rfl, rfl⟩ | ⟨_, there⟩
    · rcases places.holds i member with ⟨before, there, old⟩ | ⟨made, apart⟩
      · obtain ⟨slot, known⟩ := reserved.inside _ before i there old
        exact places.unassigned known (reserved.kept _ before i there old) held
      · rcases places.assignable held with ⟨_, mine⟩ | held
        · exact apart mine
        · obtain ⟨slot, known, _⟩ := reserved.untyped i held
          exact made.not_known known
    · obtain ⟨slot, known⟩ := reserved.inside e' after i there member
      exact places.unassigned known (reserved.kept e' after i there member) held

end Places

/-! ## What linking has laid out -/

/-- Modules have been linked since `base`. What was there is as it was, and the new modules
have no entities and nothing in the slots that are reserved for them. -/
structure Laid (base s : Store κ) : Prop where
  reserved : s.Reserved
  slots : ∀ i slot, base.slot? i = some slot → s.slot? i = some slot
  environments : ∀ e environment, base.environment? e = some environment →
    s.environment? e = some environment
  closed : ∀ i slot, base.slot? i = some slot → s.Assignable i → base.Assignable i
  fresh : ∀ e environment, s.environment? e = some environment → base.environment? e = none →
    environment.entities = .empty ∧
      ∀ i ∈ environment.reserved, ∀ slot, s.slot? i = some slot → slot.content = .uninitialized

namespace Laid

theorem start (reserved : s.Reserved) : s.Laid s :=
  ⟨reserved, fun _ _ known => known, fun _ _ known => known, fun _ _ _ assignable => assignable,
    fun e environment known absent => by rw [absent] at known; cases known⟩

/-- An environment is placed for a module that was not there at first. -/
theorem place {s₁ s₂ : Store κ} {environment : Environment} (laid : base.Laid s)
    (places : s.Places s₁ s₂ e environment) (new : base.environment? e = none)
    (empty : environment.entities = .empty) : base.Laid s₂ where
  reserved := places.reserved laid.reserved
  slots i slot held := places.kept (laid.slots i slot held)
  environments e' before there := by
    have apart : e' ≠ e := by
      rintro rfl
      rw [new] at there
      cases there
    rw [places.others e' apart]
    exact laid.environments e' before there
  closed i slot held assigned := by
    have known := laid.slots i slot held
    rcases places.assignable assigned with ⟨made, _⟩ | assigned
    · exact absurd known made.not_known
    · exact laid.closed i slot held assigned
  fresh e' after there absent := by
    have old : ∀ before, s.environment? e' = some before → ∀ i ∈ before.reserved, ∀ slot,
        s₂.slot? i = some slot → slot.content = .uninitialized := by
      intro before there i member slot held
      obtain ⟨slot', known⟩ := laid.reserved.inside e' before i there member
      cases held.symm.trans (places.kept known)
      exact (laid.fresh e' before there absent).2 i member slot known
    rcases places.present there with ⟨rfl, rfl⟩ | ⟨_, there⟩
    · refine ⟨empty, fun i member slot held => ?_⟩
      rcases places.holds i member with ⟨before, there, mine⟩ | ⟨made, _⟩
      · exact old before there i mine slot held
      · obtain ⟨other, there, none⟩ := places.made made
        cases held.symm.trans there
        exact none
    · exact ⟨(laid.fresh e' after there absent).1, old after there⟩

/-- What linking has laid out leaves all that was there. -/
theorem fixes (laid : base.Laid s) (grows : base.Grows s) : base.Fixes s := by
  refine ⟨grows, fun e before after known known' name value held => ?_,
    fun i slot _ known _ => laid.slots i slot known, laid.closed⟩
  cases (laid.environments e before known).symm.trans known'
  exact held

end Laid
end Store

namespace Links

open Store

variable {l l' : Links κ} {base : Store κ} {m : ModuleId}

/-- Staging a module lays out its slots. -/
theorem laid_stage (laid : base.Laid l.store) (size : base.environments.size ≤ l.store.environments.size)
    (fits : ∀ i, l.registry.get? m = some i → i.record.WellFormed) :
    base.Laid (l.stage m).store := by
  unfold stage
  cases known : l.registry.get? m with
  | none => exact laid
  | some i =>
    by_cases linked : i.isLinked = true
    · simp only [if_pos linked]
      exact laid
    obtain ⟨s₁, environment, made, adds, kind, imports, entities, own, exports⟩ :=
      Store.allocate_makes i.identity l.store (fits i known)
    simp only [if_neg linked, made]
    have reads : ∀ e, (s₁.addEnvironment environment).2.environment? e =
        if e = ⟨l.store.environments.size⟩ then some environment else l.store.environment? e := by
      intro e
      simp only [Store.addEnvironment, Store.environment?, Array.getElem?_push, adds.environments]
      cases e
      simp
    have reserved : environment.reserved = environment.published := by
      simp [Environment.reserved, imports, Scope.values, Scope.empty]
    refine laid.place (e := ⟨l.store.environments.size⟩) ⟨adds, rfl, (reads _).trans (if_pos rfl),
      fun e' apart => (reads e').trans (if_neg apart), ?_, .inl own, fun i member => .inr ?_⟩
      (Array.getElem?_eq_none size) entities
    · rw [reserved]
      unfold Environment.published
      cases shape : environment.kind with
      | script => exact .nil
      | binary => exact (exports (kind.symm.trans shape)).1
    · rw [reserved] at member
      unfold Environment.published at member
      cases shape : environment.kind with
      | script => simp [shape] at member
      | binary =>
        rw [shape] at member
        obtain ⟨new, slot, there, typed, none⟩ := (exports (kind.symm.trans shape)).2 i member
        refine ⟨⟨new, slot, there, none⟩, fun mine => ?_⟩
        obtain ⟨_, slot', there', untyped⟩ := own i mine
        cases there.symm.trans there'
        exact typed untyped

theorem laid_staged (ms : List ModuleId) (laid : base.Laid l.store) (housed : l.Housed)
    (size : base.environments.size ≤ l.store.environments.size)
    (fits : ∀ x i, l.registry.get? x = some i → i.record.WellFormed) :
    base.Laid (ms.foldl stage l).store := by
  induction ms generalizing l with
  | nil => exact laid
  | cons m rest ih =>
    obtain ⟨first, step, _⟩ := housed_stage housed (fits m) size
    refine ih (laid_stage laid size (fits m)) first (Nat.le_trans size step.more) fun x j held => ?_
    obtain ⟨i, known, same⟩ := record_stage held
    exact same ▸ fits x i known

/-! ## Binding -/

/-- Imports that are bound have empty slots that were made since, each its own. -/
structure MakesImports (s s' : Store κ) (bindings : Scope ImportBinding) : Prop where
  apart : (bindings.values.map (·.own)).Nodup
  made : ∀ b ∈ bindings.values, s.Made s' (·.content = .uninitialized) b.own

theorem makes_resolveImports {s : Store κ} {i : Instance κ} {decls : List ImportDecl}
    {bindings bindings' : Scope ImportBinding} (adds : s.Adds l.store)
    (makes : MakesImports s l.store bindings)
    (ran : resolveImports i decls bindings l = .ok (bindings', l')) :
    s.Adds l'.store ∧ MakesImports s l'.store bindings' := by
  induction decls generalizing bindings l with
  | nil =>
    cases ran
    exact ⟨adds, makes⟩
  | cons decl rest ih =>
    obtain ⟨⟨binding, between⟩, first, others⟩ := bind_eq_ok ran
    obtain ⟨_, origin, slot, owner, _, _, _, _, rfl, rfl⟩ := resolveImport_eq_ok first
    have slotted := Store.Adds.addSlot l.store
      ⟨i.identity, decl.localName, decl.kind, decl.type, .uninitialized⟩
    refine ih (adds.trans slotted) ⟨Scope.nodup_values_put makes.apart fun held => ?_,
      fun b member => ?_⟩ others
    · obtain ⟨b, member, same⟩ := List.mem_map.mp held
      exact (makes.made b member).fresh
        ⟨i.identity, decl.localName, decl.kind, decl.type, .uninitialized⟩ same
    · rcases mem_values_put member with rfl | member
      · exact .addSlot adds _ rfl
      · exact (makes.made b member).kept slotted

/-- Binding a module that was linked just now gives each import a slot of its own. -/
theorem laid_bindModule (laid : base.Laid l.store) (housed : l.Housed)
    (new : ∀ i e, l.registry.get? m = some i → i.environment = some e → base.environment? e = none)
    (ran : bindModule l m = .ok l') : base.Laid l'.store := by
  rcases bindModule_cases ran with rfl | ⟨i, e, imports, between, known, home, binds, rfl⟩
  · exact laid
  have absent := new i e known home
  obtain ⟨adds, apart, made⟩ := makes_resolveImports (.refl l.store)
    (⟨by simp [Scope.values, Scope.empty], by simp [Scope.values, Scope.empty]⟩) binds
  obtain ⟨there, present, _⟩ := housed.present m i e known home
  have reads : ∀ e', (between.store.modifyEnvironment e fun env => { env with imports }).environment? e' =
      if e = e' then (l.store.environment? e').map fun env => { env with imports }
      else l.store.environment? e' := fun e' => by
    rw [environment?_modifyEnvironment, adds.environment?]
  have here : (between.store.modifyEnvironment e fun env => { env with imports }).environment? e =
      some { there with imports } := by
    rw [reads, if_pos rfl, present]
    rfl
  refine laid.place ⟨adds, rfl, here, fun e' other => (reads e').trans (if_neg (Ne.symm other)), ?_,
    .inr ⟨there, present, rfl⟩, fun j member => ?_⟩ absent
    (laid.fresh e there present absent).1
  · have once := (List.nodup_append.mp (laid.reserved.once e there present)).2.1
    refine List.nodup_append.mpr ⟨apart, once, fun j captured k published same => ?_⟩
    subst same
    obtain ⟨b, member, rfl⟩ := List.mem_map.mp captured
    obtain ⟨slot, held⟩ := laid.reserved.inside e there b.own present
      (List.mem_append_right _ published)
    exact (made b member).not_known held
  · rcases List.mem_append.mp member with captured | published
    · obtain ⟨b, among, rfl⟩ := List.mem_map.mp captured
      refine .inr ⟨made b among, fun mine => ?_⟩
      obtain ⟨slot, held, _⟩ := laid.reserved.untyped b.own ⟨e, there, present, mine⟩
      exact (made b among).not_known held
    · exact .inl ⟨there, present, List.mem_append_right _ published⟩

theorem laid_bindAll {ms : List ModuleId} (laid : base.Laid l.store) (housed : l.Housed)
    (fits : ∀ x i, l.registry.get? x = some i → i.record.WellFormed)
    (fresh : ∀ m ∈ ms, ∀ i e, l.registry.get? m = some i → i.environment = some e →
      base.environments.size ≤ e.index)
    (ran : ms.foldlM bindModule l = .ok l') : base.Laid l'.store := by
  induction ms generalizing l with
  | nil =>
    cases ran
    exact laid
  | cons m rest ih =>
    rw [List.foldlM_cons] at ran
    obtain ⟨between, first, others⟩ := bind_eq_ok ran
    obtain ⟨here, _⟩ := housed_bindModule housed (fits m) (fresh m List.mem_cons_self) first
    have registry := registry_bindModule first
    refine ih (laid_bindModule laid housed (fun i e known home => ?_) first) here
      (by rwa [registry]) (fun x member => ?_) others
    · exact Array.getElem?_eq_none (fresh m List.mem_cons_self i e known home)
    · rw [registry]
      exact fresh x (List.mem_cons_of_mem _ member)

/-- Linking a graph lays out the slots of the modules that were not linked. -/
theorem laid_of_link {g : ModuleGraph} (reserved : l.store.Reserved) (housed : l.Housed)
    (stocked : l.registry.Stocked) (ran : link l g = .ok l') : l.store.Laid l'.store := by
  obtain ⟨_, bound, binds, rfl⟩ := link_eq_ok ran
  have fits : ∀ x i, l.registry.get? x = some i → i.record.WellFormed := fun x i known =>
    Record.wellFormed_of_validate (stocked.checked x i known)
  obtain ⟨staged, _, fits', _⟩ := housed_staged (l.pending g) housed fits (Nat.le_refl _)
  have laid := laid_staged (l.pending g) (.start reserved) housed (Nat.le_refl _) fits
  have bound : l.store.Laid bound.store := laid_bindAll laid staged fits'
    (fun m member i e known home => home_of_pending housed fits member known home) binds
  exact bound

end Links
end MixedModules
