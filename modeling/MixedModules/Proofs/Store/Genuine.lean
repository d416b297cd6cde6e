import MixedModules.Proofs.Store.Sight

/-! Handles of what is there.

A handle is had from the store that made its object, so where code makes none up, nothing in
a store refers to what is not there: not a slot, not an entity and not an element of a table.
Operations that are handed only such handles put no others anywhere, and answer none. -/
namespace MixedModules

/-- The value that is described. -/
def Description.value : Description → Value
  | primitive value => value
  | global g _ => .global g
  | memory m _ => .memory m
  | table t _ => .table t
  | function f _ _ => .function f

namespace Operation

variable {κ : Type}

/-- The values that an operation is handed. -/
def hands : Operation κ → List Value
  | readGlobal g | writeGlobal g _ => [.global g]
  | memoryLimits m | growMemory m _ | readMemory m _ _ | loadMemory m _ | writeMemory m _ _ =>
    [.memory m]
  | tableLimits t | readTable t _ => [.table t]
  | writeTable t _ element | growTable t _ element => .table t :: (element.map .function).toList
  | readFunction f => [.function f]
  | observe _ _ value | describe value | assign _ _ value => [value]
  | newGlobal .. | newMemory _ | newTable _ | newHost .. | newClosure .. | moduleKind _ | readName ..
  | readImport .. | readEntity .. | readEntityOf .. => []

/-- The values that an operation answers. -/
def gives : (o : Operation κ) → o.Answer → List Value
  | newGlobal .., g => [.global g]
  | newMemory _, m => [.memory m]
  | newTable _, t => [.table t]
  | readTable .., element => (element.map .function).toList
  | newHost .., f | newClosure .., f => [.function f]
  | observe .., .ok value => [value]
  | describe _, description => [description.value]
  | readName .., value | readImport .., value | readEntity .., value
  | readEntityOf .., value => [value]
  | _, _ => []

end Operation

namespace Store

variable {κ : Type} {s s' : Store κ} {v : Value}

/-- What a value refers to is there. -/
def Has (s : Store κ) : Value → Prop
  | .global g => ∃ global, s.global g = .ok global
  | .memory m => ∃ memory, s.memory m = .ok memory
  | .table t => ∃ table, s.table t = .ok table
  | .function f => ∃ function, s.function f = .ok function
  | _ => True

theorem Has.of_primitive (primitive : v.bindingKind = .value) : s.Has v := by
  cases v <;> trivial

theorem Has.ofRaw (raw : Raw) : s.Has (.ofRaw raw) := by
  cases raw <;> trivial

/-- A value that has a declared type is there. -/
theorem Has.of_conforms {type : TypeSig} (conforms : s.Conforms type v) : s.Has v := by
  unfold Conforms at conforms
  split at conforms
  all_goals first
    | exact conforms.elim
    | obtain ⟨object, known, _⟩ := conforms
      exact ⟨object, known⟩

theorem value_describe (s : Store κ) (v : Value) : (s.describe v).value = v := by
  unfold describe
  cases v with
  | global g => cases known : s.global g <;> simp only [known, Except.map, Description.value]
  | memory m => cases known : s.memory m <;> simp only [known, Except.map, Description.value]
  | table t => cases known : s.table t <;> simp only [known, Except.map, Description.value]
  | function f => cases known : s.function f <;> simp only [known, Except.map, Description.value]
  | undefined | null | bool | number | bigint | string => rfl

/-- What is there stays. -/
theorem Has.kept (has : s.Has v) (keeps : s.Keeps s') : s'.Has v := by
  cases v with
  | global g =>
    obtain ⟨global, known⟩ := has
    obtain ⟨global', known', _⟩ := keeps.globals g global known
    exact ⟨global', known'⟩
  | memory m =>
    obtain ⟨memory, known⟩ := has
    obtain ⟨memory', known', _⟩ := keeps.memories m memory known
    exact ⟨memory', known'⟩
  | table t =>
    obtain ⟨table, known⟩ := has
    obtain ⟨table', known', _⟩ := keeps.tables t table known
    exact ⟨table', known'⟩
  | function f =>
    obtain ⟨function, known⟩ := has
    exact ⟨function, keeps.functions f function known⟩
  | undefined | null | bool | number | bigint | string => trivial

/-- What is there is wherever the object behind it is the same. -/
theorem Has.sameBehind (has : s.Has v) (same : s.SameBehind s' v) : s'.Has v := by
  cases v with
  | global | memory | table | function =>
    obtain ⟨object, known⟩ := has
    exact ⟨object, Eq.trans same known⟩
  | undefined | null | bool | number | bigint | string => trivial

/-- Nothing in the store refers to what is not there. -/
structure Genuine (s : Store κ) : Prop where
  slots : ∀ i slot value, s.slot? i = some slot → slot.value? = some value → s.Has value
  entities : ∀ e environment name value, s.environment? e = some environment →
    environment.entities.get? name = some value → s.Has value
  elements : ∀ t table f, s.table t = .ok table → some f ∈ table.elements → s.Has (.function f)

namespace Genuine

theorem empty : (Store.empty : Store κ).Genuine where
  slots _ _ _ known := by cases known
  entities _ _ _ _ known := by cases known
  elements _ _ _ known := by cases known

theorem readSlot {i : SlotId} (genuine : s.Genuine) (read : s.readSlot i = .ok v) : s.Has v := by
  obtain ⟨slot, known, held⟩ := readSlot_eq_ok read
  exact genuine.slots i slot v known held

theorem readImport {e : EnvironmentId} {name : String} (genuine : s.Genuine)
    (read : s.readImport e name = .ok v) : s.Has v := by
  unfold Store.readImport at read
  obtain ⟨environment, _, read⟩ := bind_eq_ok read
  split at read
  · exact genuine.readSlot read
  · cases read

theorem readName {e : EnvironmentId} {name : String} (genuine : s.Genuine)
    (read : s.readName e name = .ok v) : s.Has v := by
  unfold Store.readName at read
  obtain ⟨environment, _, read⟩ := bind_eq_ok read
  split at read
  · exact genuine.readSlot read
  · exact genuine.readImport read

theorem readEntity {e : EnvironmentId} {name : String} (genuine : s.Genuine)
    (read : s.readEntity e name = .ok v) : s.Has v := by
  obtain ⟨environment, known, found⟩ := readEntity_eq_ok read
  exact genuine.entities e environment name v known found

theorem readEntityAs {α : Type} {kind : BindingKind} {part : Value → Option α} {e : EnvironmentId}
    {name : String} {x : α} (genuine : s.Genuine)
    (read : s.readEntityAs kind part e name = .ok x) : ∃ value, part value = some x ∧ s.Has value := by
  unfold Store.readEntityAs at read
  obtain ⟨environment, _, read⟩ := bind_eq_ok read
  obtain ⟨value, entity, read⟩ := bind_eq_ok read
  split at read
  · next found =>
    cases read
    exact ⟨value, found, genuine.readEntity entity⟩
  · cases read

theorem readTable {t : TableId} {index : Nat} {f : FunctionId} (genuine : s.Genuine)
    (read : s.readTable t index = .ok (some f)) : s.Has (.function f) := by
  unfold Store.readTable at read
  obtain ⟨table, known, read⟩ := bind_eq_ok read
  unfold Table.get at read
  cases found : table.elements[index]? with
  | none =>
    rw [found] at read
    cases read
  | some element =>
    rw [found] at read
    cases read
    exact genuine.elements t table f known (Array.mem_of_getElem? found)

/-! ## Writing -/

/-- What is put into a slot is there. -/
theorem modifySlot {i : SlotId} {change : Slot → Slot} (genuine : s.Genuine)
    (puts : ∀ slot value, s.slot? i = some slot → (change slot).value? = some value → s.Has value) :
    (s.modifySlot i change).Genuine where
  slots j slot value known held := by
    rw [slot?_modifySlot] at known
    split at known
    · next same =>
      subst same
      obtain ⟨before, there, rfl⟩ := Option.map_eq_some_iff.mp known
      exact puts before value there held
    · exact genuine.slots j slot value known held
  entities := genuine.entities
  elements := genuine.elements

theorem setLive (genuine : s.Genuine) (i : SlotId) (has : s.Has v) :
    (s.modifySlot i fun slot => slot.setLive v).Genuine :=
  genuine.modifySlot fun _ _ _ held => Option.some.inj held ▸ has

theorem setSnapshot (genuine : s.Genuine) (i : SlotId) (has : s.Has v) :
    (s.modifySlot i fun slot => slot.setSnapshot v).Genuine :=
  genuine.modifySlot fun _ _ _ held => Option.some.inj held ▸ has

theorem enterDeadZone (genuine : s.Genuine) (i : SlotId) :
    (s.modifySlot i Slot.enterDeadZone).Genuine :=
  genuine.modifySlot fun slot value known held => by
    refine genuine.slots i slot value known ?_
    unfold Slot.enterDeadZone at held
    split at held
    · cases held
    · exact held

/-- What is put among the entities is there. -/
theorem install (genuine : s.Genuine) (e : EnvironmentId) (name : String) (has : s.Has v) :
    (s.install e name v).Genuine where
  slots := genuine.slots
  entities e' environment other value known found := by
    rw [environment?_install] at known
    split at known
    · obtain ⟨before, there, rfl⟩ := Option.map_eq_some_iff.mp known
      rw [Scope.get?_put] at found
      split at found
      · exact Option.some.inj found ▸ has
      · exact genuine.entities e' before other value there found
    · exact genuine.entities e' environment other value known found
  elements := genuine.elements

theorem addEnvironment {environment : Environment} (genuine : s.Genuine)
    (has : ∀ name value, environment.entities.get? name = some value → s.Has value) :
    (s.addEnvironment environment).2.Genuine where
  slots := genuine.slots
  entities e held name value known found := by
    rw [environment?, Store.addEnvironment, Array.getElem?_push] at known
    split at known
    · cases known
      exact has name value found
    · exact genuine.entities e held name value known found
  elements := genuine.elements

/-! ## Tables -/

/-- Slots and environments stay, and tables come to hold what is there. -/
theorem same (genuine : s.Genuine) (keeps : s.Keeps s') (slots : s'.slots = s.slots)
    (environments : s'.environments = s.environments)
    (holds : ∀ t table f, s'.table t = .ok table → some f ∈ table.elements →
      s.Has (.function f)) : s'.Genuine where
  slots i slot value known held := by
    rw [slot?, slots] at known
    exact (genuine.slots i slot value known held).kept keeps
  entities e environment name value known found := by
    rw [environment?, environments] at known
    exact (genuine.entities e environment name value known found).kept keeps
  elements t table f known member := (holds t table f known member).kept keeps

theorem sameBindings (genuine : s.Genuine) (same : s.SameBindings s')
    (holds : ∀ t table f, s'.table t = .ok table → some f ∈ table.elements →
      s.Has (.function f)) : s'.Genuine :=
  genuine.same same.grows.toKeeps same.slots same.environments holds

/-- One table comes to hold more, which is there. -/
theorem setTable {t : TableId} {table changed : Table} (genuine : s.Genuine)
    (held : s.table t = .ok table)
    (same : s.SameBindings { s with tables := s.tables.setIfInBounds t.index changed })
    (puts : ∀ f, some f ∈ changed.elements → some f ∈ table.elements ∨ s.Has (.function f)) :
    { s with tables := s.tables.setIfInBounds t.index changed }.Genuine := by
  refine genuine.sameBindings same fun t' table' f known member => ?_
  rw [table_eq_ok, Array.getElem?_setIfInBounds] at known
  split at known
  · split at known <;> cases known
    exact (puts f member).elim (genuine.elements t table f held) id
  · exact genuine.elements t' table' f (table_eq_ok.mpr known) member

theorem writeTable {t : TableId} {index : Nat} {element : Option FunctionId} (genuine : s.Genuine)
    (has : ∀ f, element = some f → s.Has (.function f))
    (ran : writeTable t index element s = .ok ((), s')) : s'.Genuine := by
  have same := sameBindings_writeTable ran
  unfold Store.writeTable at ran
  obtain ⟨table, held, ran⟩ := bind_eq_ok ran
  cases written : table.set index element with
  | error f =>
    rw [written] at ran
    cases ran
  | ok changed =>
    rw [written] at ran
    cases ran
    refine genuine.setTable held same fun f member => ?_
    unfold Table.set at written
    split at written <;> cases written
    rcases Array.mem_or_eq_of_mem_setIfInBounds member with before | new
    · exact .inl before
    · exact .inr (has f new.symm)

theorem growTable {t : TableId} {delta before : Nat} {element : Option FunctionId}
    (genuine : s.Genuine) (has : ∀ f, element = some f → s.Has (.function f))
    (ran : growTable t delta element s = .ok (before, s')) : s'.Genuine := by
  have same := sameBindings_growTable ran
  unfold Store.growTable at ran
  obtain ⟨table, held, ran⟩ := bind_eq_ok ran
  cases grown : table.grow delta element with
  | error f =>
    rw [grown] at ran
    cases ran
  | ok result =>
    rw [grown] at ran
    cases ran
    refine genuine.setTable held same fun f member => ?_
    unfold Table.grow at grown
    split at grown <;> cases grown
    rcases Array.mem_append.mp member with before | new
    · exact .inl before
    · exact .inr (has f (Array.eq_of_mem_replicate new).symm)

theorem newTable {limits : Limits} {t : TableId} (genuine : s.Genuine)
    (ran : newTable limits s = .ok (t, s')) : s'.Genuine := by
  have same := (sameBindings_newTable ran).1
  unfold Store.newTable at ran
  cases made : Table.new limits with
  | error f =>
    rw [made] at ran
    cases ran
  | ok table =>
    rw [made] at ran
    cases ran
    refine genuine.sameBindings same fun t' table' f known member => ?_
    rw [table_eq_ok, Array.getElem?_push] at known
    split at known
    · cases known
      unfold Table.new at made
      split at made <;> cases made
      cases Array.eq_of_mem_replicate member
    · exact genuine.elements t' table' f (table_eq_ok.mpr known) member

/-! ## Steps that leave tables alone -/

theorem newGlobal {type : GlobalType} {initial : Raw} {g : GlobalId} (genuine : s.Genuine)
    (ran : newGlobal type initial s = .ok (g, s')) : s'.Genuine := by
  have same := (sameBindings_newGlobal ran).1
  unfold Store.newGlobal at ran
  split at ran <;> cases ran
  exact genuine.sameBindings same genuine.elements

theorem writeGlobal {g : GlobalId} {value : Raw} (genuine : s.Genuine)
    (ran : writeGlobal g value s = .ok ((), s')) : s'.Genuine := by
  have same := sameBindings_writeGlobal ran
  unfold Store.writeGlobal at ran
  obtain ⟨global, _, ran⟩ := bind_eq_ok ran
  split at ran <;> cases ran
  exact genuine.sameBindings same genuine.elements

theorem newMemory {limits : Limits} {m : MemoryId} (genuine : s.Genuine)
    (ran : newMemory limits s = .ok (m, s')) : s'.Genuine := by
  have same := (sameBindings_newMemory ran).1
  unfold Store.newMemory at ran
  split at ran <;> cases ran
  exact genuine.sameBindings same genuine.elements

theorem growMemory {m : MemoryId} {delta before : Nat} (genuine : s.Genuine)
    (ran : growMemory m delta s = .ok (before, s')) : s'.Genuine := by
  have same := sameBindings_growMemory ran
  unfold Store.growMemory at ran
  obtain ⟨memory, _, ran⟩ := bind_eq_ok ran
  split at ran <;> cases ran
  exact genuine.sameBindings same genuine.elements

theorem writeMemory {m : MemoryId} {offset : Nat} {bytes : List UInt8} (genuine : s.Genuine)
    (ran : writeMemory m offset bytes s = .ok ((), s')) : s'.Genuine := by
  have same := sameBindings_writeMemory ran
  unfold Store.writeMemory at ran
  obtain ⟨memory, _, ran⟩ := bind_eq_ok ran
  split at ran <;> cases ran
  exact genuine.sameBindings same genuine.elements

theorem addFunction (genuine : s.Genuine) (name : String) (callable : Callable κ) :
    (s.addFunction name callable).2.Genuine :=
  genuine.same (grows_addFunction s name callable).toKeeps rfl rfl genuine.elements

theorem observe {kind : BindingKind} {type : TypeSig} {value observed : Value}
    (genuine : s.Genuine) (ran : s.observe kind type value = .ok (observed, s')) : s'.Genuine := by
  have same := (observe_spec ran).1
  obtain ⟨sight, shows⟩ := s.exists_sight kind type value
  rw [shows s (SameBehind.refl s value)] at ran
  rcases sight with _ | _ | _ | _ <;> cases ran
  all_goals exact genuine.sameBindings same genuine.elements

/-! ## Operations -/

/-- What an operation answers is there. -/
theorem answers {o : Operation κ} {a : o.Answer} (genuine : s.Genuine)
    (has : ∀ v ∈ o.hands, s.Has v) (ran : o.perform s = .ok (a, s')) :
    ∀ v ∈ o.gives a, s'.Has v := by
  intro v given
  cases o with
  | readGlobal | writeGlobal | memoryLimits | growMemory | readMemory | loadMemory | writeMemory
  | tableLimits | writeTable | growTable | readFunction | moduleKind | assign => cases given
  | newGlobal =>
    obtain ⟨global, known, _⟩ := (sameBindings_newGlobal ran).2
    cases List.mem_singleton.mp given
    exact ⟨global, known⟩
  | newMemory =>
    obtain ⟨memory, known, _⟩ := (sameBindings_newMemory ran).2
    cases List.mem_singleton.mp given
    exact ⟨memory, known⟩
  | newTable =>
    obtain ⟨table, known, _⟩ := (sameBindings_newTable ran).2
    cases List.mem_singleton.mp given
    exact ⟨table, known⟩
  | newHost name code =>
    cases ran
    cases List.mem_singleton.mp given
    exact ⟨_, function_addFunction s name (.host code)⟩
  | newClosure home name code =>
    cases ran
    cases List.mem_singleton.mp given
    exact ⟨_, function_addFunction s name (.script code home)⟩
  | readTable t index =>
    rw [Operation.perform] at ran
    obtain ⟨read, rfl⟩ := reading_eq_ok ran
    cases a with
    | none => cases given
    | some f =>
      cases List.mem_singleton.mp given
      exact genuine.readTable read
  | observe kind type value =>
    unfold Operation.perform at ran
    simp only at ran
    cases result : s.observe kind type value with
    | error reason =>
      rw [result] at ran
      cases ran
      cases given
    | ok pair =>
      rw [result] at ran
      cases ran
      cases List.mem_singleton.mp given
      exact .of_conforms (observe_spec result).2
  | describe value =>
    rw [Operation.perform] at ran
    obtain ⟨read, rfl⟩ := reading_eq_ok ran
    cases List.mem_singleton.mp given
    cases read
    rw [value_describe]
    exact has value List.mem_cons_self
  | readName =>
    rw [Operation.perform] at ran
    obtain ⟨read, rfl⟩ := reading_eq_ok ran
    cases List.mem_singleton.mp given
    exact genuine.readName read
  | readImport =>
    rw [Operation.perform] at ran
    obtain ⟨read, rfl⟩ := reading_eq_ok ran
    cases List.mem_singleton.mp given
    exact genuine.readImport read
  | readEntity =>
    rw [Operation.perform] at ran
    obtain ⟨read, rfl⟩ := reading_eq_ok ran
    cases List.mem_singleton.mp given
    exact genuine.readEntity read
  | readEntityOf kind home name =>
    rw [Operation.perform] at ran
    obtain ⟨read, rfl⟩ := reading_eq_ok ran
    cases List.mem_singleton.mp given
    obtain ⟨value, part, held⟩ := genuine.readEntityAs read
    split at part <;> cases part
    exact held

/-- An operation that is handed what is there puts nothing else anywhere. -/
theorem perform {o : Operation κ} {a : o.Answer} (genuine : s.Genuine)
    (has : ∀ v ∈ o.hands, s.Has v) (ran : o.perform s = .ok (a, s')) : s'.Genuine := by
  cases o with
  | readGlobal | memoryLimits | readMemory | loadMemory | tableLimits | readTable | readFunction
  | describe | moduleKind | readName | readImport | readEntity | readEntityOf =>
    rw [Operation.perform] at ran
    obtain ⟨_, rfl⟩ := reading_eq_ok ran
    exact genuine
  | newGlobal => exact genuine.newGlobal ran
  | writeGlobal => exact genuine.writeGlobal ran
  | newMemory => exact genuine.newMemory ran
  | growMemory => exact genuine.growMemory ran
  | writeMemory => exact genuine.writeMemory ran
  | newTable => exact genuine.newTable ran
  | writeTable t index element =>
    exact genuine.writeTable (fun f same => has _ (by simp [Operation.hands, same])) ran
  | growTable t delta element =>
    exact genuine.growTable (fun f same => has _ (by simp [Operation.hands, same])) ran
  | newHost name code =>
    cases ran
    exact genuine.addFunction name _
  | newClosure home name code =>
    cases ran
    exact genuine.addFunction name _
  | observe kind type value =>
    unfold Operation.perform at ran
    simp only at ran
    cases result : s.observe kind type value with
    | error reason =>
      rw [result] at ran
      cases ran
      exact genuine
    | ok pair =>
      rw [result] at ran
      cases ran
      exact genuine.observe result
  | assign e name value =>
    obtain ⟨environment, i, _, _, rfl⟩ := assign_eq_ok ran
    exact genuine.setLive i (has value List.mem_cons_self)

end Genuine
end Store
end MixedModules
