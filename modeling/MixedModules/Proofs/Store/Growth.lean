import Mathlib.Tactic.ByContra
import MixedModules.Evaluation.Imports
import MixedModules.Evaluation.Instantiation
import MixedModules.Proofs.Record.WellFormed

/-! Stores only grow.

Whatever is done to a store, an object keeps its type, a memory or table gets no
smaller, a function stays what it is, and slots and environments keep all but what
they hold. So what was true of a handle once stays true of it. -/
namespace MixedModules

namespace Limits

theorem satisfies_refl (l : Limits) : l.satisfies l = true := by
  cases most : l.max <;> simp [satisfies, most]

theorem satisfies_trans {one other last : Limits} (first : one.satisfies other = true)
    (second : other.satisfies last = true) : one.satisfies last = true := by
  unfold satisfies at *
  cases most : last.max with
  | none =>
    simp only [most, Bool.and_true, decide_eq_true_eq, Bool.and_eq_true] at *
    omega
  | some max =>
    cases between : other.max with
    | none => simp [most, between] at second
    | some max' =>
      cases here : one.max with
      | none => simp [between, here] at first
      | some max'' =>
        simp only [most, between, here, Bool.and_eq_true, decide_eq_true_eq] at *
        omega

/-- More room under the same bound satisfies what less room did. -/
theorem satisfies_of_le {least least' : Nat} {max : Option Nat} (more : least ≤ least') :
    satisfies ⟨least', max⟩ ⟨least, max⟩ = true := by
  cases max <;> simp [satisfies, more]

end Limits

theorem Memory.limits_grow {m m' : Memory} {delta before : Nat}
    (ran : m.grow delta = .ok (before, m')) : m'.limits.satisfies m.limits = true := by
  unfold Memory.grow at ran
  split at ran
  · cases ran
    exact Limits.satisfies_of_le (Nat.le_add_right _ _)
  · cases ran

theorem Memory.limits_write {m m' : Memory} {offset : Nat} {bytes : List UInt8}
    (ran : m.write offset bytes = .ok m') : m'.limits = m.limits := by
  unfold Memory.write at ran
  cases checked : m.check offset bytes.length with
  | error e =>
    rw [checked] at ran
    cases ran
  | ok _ =>
    rw [checked] at ran
    cases ran
    rfl

theorem Table.limits_grow {t t' : Table} {delta before : Nat} {element : Option FunctionId}
    (ran : t.grow delta element = .ok (before, t')) : t'.limits.satisfies t.limits = true := by
  unfold Table.grow at ran
  split at ran
  · cases ran
    apply Limits.satisfies_of_le
    simp [Table.size]
  · cases ran

theorem Table.limits_set {t t' : Table} {index : Nat} {element : Option FunctionId}
    (ran : t.set index element = .ok t') : t'.limits = t.limits := by
  unfold Table.set at ran
  split at ran
  · cases ran
    simp [Table.limits, Table.size]
  · cases ran

theorem Global.type_set {g g' : Global} {value : Raw} (ran : g.set value = .ok g') :
    g'.type = g.type := by
  unfold Global.set at ran
  split at ran
  · cases ran
  · split at ran
    · cases ran
      rfl
    · cases ran

/-- A number that is stored is of the global's type. -/
theorem Global.number_set {g g' : Global} {value : Raw} (ran : g.set value = .ok g') :
    g'.value.type = g'.type.value := by
  unfold Global.set at ran
  split at ran
  · cases ran
  · split at ran
    · cases ran
      assumption
    · cases ran

namespace Store

variable {κ : Type} {s s' s'' : Store κ}

/-- Objects keep their types and their room, and slots all but what they hold. -/
structure Keeps (s s' : Store κ) : Prop where
  globals : ∀ g global, s.global g = .ok global →
    ∃ global', s'.global g = .ok global' ∧ global'.type = global.type
  memories : ∀ m memory, s.memory m = .ok memory →
    ∃ memory', s'.memory m = .ok memory' ∧ memory'.limits.satisfies memory.limits = true
  tables : ∀ t table, s.table t = .ok table →
    ∃ table', s'.table t = .ok table' ∧ table'.limits.satisfies table.limits = true
  functions : ∀ f function, s.function f = .ok function → s'.function f = .ok function
  slots : ∀ i slot, s.slot? i = some slot → ∃ content, s'.slot? i = some { slot with content }

namespace Keeps

theorem refl (s : Store κ) : s.Keeps s where
  globals _ global known := ⟨global, known, rfl⟩
  memories _ memory known := ⟨memory, known, Limits.satisfies_refl _⟩
  tables _ table known := ⟨table, known, Limits.satisfies_refl _⟩
  functions _ _ known := known
  slots _ slot known := ⟨slot.content, known⟩

theorem trans (first : s.Keeps s') (second : s'.Keeps s'') : s.Keeps s'' where
  globals g global known := by
    obtain ⟨global', known, same⟩ := first.globals g global known
    obtain ⟨global'', known, same'⟩ := second.globals g global' known
    exact ⟨global'', known, same'.trans same⟩
  memories m memory known := by
    obtain ⟨memory', known, more⟩ := first.memories m memory known
    obtain ⟨memory'', known, more'⟩ := second.memories m memory' known
    exact ⟨memory'', known, Limits.satisfies_trans more' more⟩
  tables t table known := by
    obtain ⟨table', known, more⟩ := first.tables t table known
    obtain ⟨table'', known, more'⟩ := second.tables t table' known
    exact ⟨table'', known, Limits.satisfies_trans more' more⟩
  functions f function known := second.functions f function (first.functions f function known)
  slots i slot known := by
    obtain ⟨content, known'⟩ := first.slots i slot known
    exact second.slots i { slot with content } known'

end Keeps

/-- A store that keeps everything, and environments all but their entities. -/
structure Grows (s s' : Store κ) : Prop extends Keeps s s' where
  environments : ∀ e environment, s.environment? e = some environment →
    ∃ entities, s'.environment? e = some { environment with entities }

namespace Grows

theorem refl (s : Store κ) : s.Grows s where
  toKeeps := .refl s
  environments _ environment known := ⟨environment.entities, known⟩

theorem trans (first : s.Grows s') (second : s'.Grows s'') : s.Grows s'' where
  toKeeps := first.toKeeps.trans second.toKeeps
  environments e environment known := by
    obtain ⟨entities, known'⟩ := first.environments e environment known
    exact second.environments e { environment with entities } known'

/-- No environment goes away. -/
theorem size_le (grows : s.Grows s') : s.environments.size ≤ s'.environments.size := by
  by_contra fewer
  have inside : s'.environments.size < s.environments.size := by omega
  have known : s.environment? ⟨s'.environments.size⟩ = some s.environments[s'.environments.size] :=
    Array.getElem?_eq_getElem inside
  obtain ⟨entities, known⟩ := grows.environments _ _ known
  have absent : s'.environment? ⟨s'.environments.size⟩ = none :=
    Array.getElem?_eq_none (Nat.le_refl _)
  rw [absent] at known
  cases known

end Grows

/-- The environment of a module is there. -/
def Present (s : Store κ) (e : EnvironmentId) : Prop :=
  ∃ environment, s.environment? e = some environment

theorem Present.grows {e : EnvironmentId} (present : s.Present e) (grows : s.Grows s') :
    s'.Present e := by
  obtain ⟨environment, known⟩ := present
  obtain ⟨entities, known'⟩ := grows.environments e environment known
  exact ⟨_, known'⟩

/-- A function that is there and has no signature. -/
def Unsigned (s : Store κ) (f : FunctionId) : Prop :=
  ∃ function, s.function f = .ok function ∧ function.signature? = none

theorem Unsigned.kept {f : FunctionId} (unsigned : s.Unsigned f) (keeps : s.Keeps s') :
    s'.Unsigned f := by
  obtain ⟨function, known, none⟩ := unsigned
  exact ⟨function, keeps.functions f function known, none⟩

/-- Objects are what their types say: a global holds a number of its own type, the module that
a binary function belongs to is there, and an adapter stands for a function that has no
signature. -/
structure Intact (s : Store κ) : Prop where
  numbers : ∀ g global, s.global g = .ok global → global.value.type = global.type.value
  homes : ∀ f function type code home, s.function f = .ok function →
    function.callable = .binary type code home → s.Present home
  targets : ∀ f function type target, s.function f = .ok function →
    function.callable = .adapter type target → s.Unsigned target

theorem Intact.empty : (Store.empty : Store κ).Intact := ⟨nofun, nofun, nofun⟩

/-- Nothing is lost where globals and functions stay and no environment goes away. -/
theorem Intact.same (intact : s.Intact) (globals : s'.globals = s.globals)
    (functions : s'.functions = s.functions) (stay : ∀ e, s.Present e → s'.Present e) :
    s'.Intact := by
  have same (f : FunctionId) : s'.function f = s.function f := by
    rw [Store.function, functions, ← Store.function]
  refine ⟨fun g global known => intact.numbers g global ?_,
    fun f function type code home known callable => ?_,
    fun f function type target known callable => ?_⟩
  · rwa [Store.global, ← globals]
  · exact stay home (intact.homes f function type code home (same f ▸ known) callable)
  · obtain ⟨inner, there, none⟩ := intact.targets f function type target (same f ▸ known) callable
    exact ⟨inner, (same target).trans there, none⟩

theorem Intact.grows (intact : s.Intact) (globals : s'.globals = s.globals)
    (functions : s'.functions = s.functions) (grows : s.Grows s') : s'.Intact :=
  intact.same globals functions fun _ present => present.grows grows

/-- Only objects differ: slots and environments are the very same. -/
structure SameBindings (s s' : Store κ) : Prop where
  grows : s.Grows s'
  slots : s'.slots = s.slots
  environments : s'.environments = s.environments
  intact : s.Intact → s'.Intact

theorem SameBindings.refl (s : Store κ) : s.SameBindings s := ⟨.refl s, rfl, rfl, fun intact => intact⟩

theorem SameBindings.environment?_eq (same : s.SameBindings s') (e : EnvironmentId) :
    s'.environment? e = s.environment? e := by
  rw [Store.environment?, same.environments, ← Store.environment?]

/-- A step that leaves globals and functions alone, too. -/
theorem Grows.sameBindings (grows : s.Grows s') (slots : s'.slots = s.slots)
    (environments : s'.environments = s.environments) (globals : s'.globals = s.globals)
    (functions : s'.functions = s.functions) : s.SameBindings s' :=
  ⟨grows, slots, environments, fun intact => intact.grows globals functions grows⟩

/-! ## Objects -/

section Objects

theorem global_eq_ok {g : GlobalId} {global : Global} :
    s.global g = .ok global ↔ s.globals[g.index]? = some global := by
  unfold Store.global
  cases s.globals[g.index]? with
  | some held => simp
  | none => exact ⟨fun held => (by cases held), fun held => (by cases held)⟩

theorem memory_eq_ok {m : MemoryId} {memory : Memory} :
    s.memory m = .ok memory ↔ s.memories[m.index]? = some memory := by
  unfold Store.memory
  cases s.memories[m.index]? with
  | some held => simp
  | none => exact ⟨fun held => (by cases held), fun held => (by cases held)⟩

theorem table_eq_ok {t : TableId} {table : Table} :
    s.table t = .ok table ↔ s.tables[t.index]? = some table := by
  unfold Store.table
  cases s.tables[t.index]? with
  | some held => simp
  | none => exact ⟨fun held => (by cases held), fun held => (by cases held)⟩

theorem function_eq_ok {f : FunctionId} {function : Function κ} :
    s.function f = .ok function ↔ s.functions[f.index]? = some function := by
  unfold Store.function
  cases s.functions[f.index]? with
  | some held => simp
  | none => exact ⟨fun held => (by cases held), fun held => (by cases held)⟩

/-- A row that gets one more member keeps the others. -/
theorem getElem?_push_of_some {α : Type} {row : Array α} {i : Nat} {a b : α}
    (known : row[i]? = some a) : (row.push b)[i]? = some a := by
  have inside := (Array.getElem?_eq_some_iff.mp known).1
  rw [Array.getElem?_push, if_neg (by omega), known]

/-- A row in which one member is replaced has the new one in its place. -/
private theorem getElem?_set_of_some {α : Type} {row : Array α} {i j : Nat} {a b old : α}
    (known : row[i]? = some a) (there : row[j]? = some old) :
    (row.setIfInBounds j b)[i]? = some a ∧ i ≠ j ∨
      (row.setIfInBounds j b)[i]? = some b ∧ old = a := by
  by_cases same : j = i
  · subst same
    cases known.symm.trans there
    have inside := (Array.getElem?_eq_some_iff.mp known).1
    exact .inr ⟨by simp [inside], rfl⟩
  · exact .inl ⟨by rw [Array.getElem?_setIfInBounds, if_neg same, known], Ne.symm same⟩

variable {g : GlobalId} {m : MemoryId} {t : TableId} {limits : Limits}

theorem sameBindings_newGlobal {type : GlobalType} {initial : Raw}
    (ran : newGlobal type initial s = .ok (g, s')) :
    s.SameBindings s' ∧ ∃ global, s'.global g = .ok global ∧ global.type = type := by
  unfold newGlobal at ran
  cases made : Global.new type initial with
  | error f =>
    rw [made] at ran
    cases ran
  | ok global =>
    rw [made] at ran
    cases ran
    unfold Global.new at made
    split at made <;> cases made
    rename_i fits
    refine ⟨⟨{ Grows.refl s with globals := fun g global known => ?_ }, rfl, rfl,
      fun intact => ⟨fun g global known => ?_, intact.homes, intact.targets⟩⟩,
      ⟨type, initial⟩, global_eq_ok.mpr (by simp), rfl⟩
    · exact ⟨global, global_eq_ok.mpr (getElem?_push_of_some (global_eq_ok.mp known)), rfl⟩
    · rw [global_eq_ok, Array.getElem?_push] at known
      split at known
      · cases known
        exact fits
      · exact intact.numbers g global (global_eq_ok.mpr known)

theorem sameBindings_writeGlobal {value : Raw} (ran : writeGlobal g value s = .ok ((), s')) :
    s.SameBindings s' := by
  unfold writeGlobal at ran
  obtain ⟨global, held, ran⟩ := bind_eq_ok ran
  cases stored : global.set value with
  | error f =>
    rw [stored] at ran
    cases ran
  | ok changed =>
    rw [stored] at ran
    cases ran
    refine ⟨{ Grows.refl s with globals := fun g' global' known => ?_ }, rfl, rfl,
      fun intact => ⟨fun g' global' known => ?_, intact.homes, intact.targets⟩⟩
    · rcases getElem?_set_of_some (b := changed) (global_eq_ok.mp known) (global_eq_ok.mp held) with
        ⟨kept, _⟩ | ⟨replaced, same⟩
      · exact ⟨global', global_eq_ok.mpr kept, rfl⟩
      · exact ⟨changed, global_eq_ok.mpr replaced, same ▸ Global.type_set stored⟩
    · rw [global_eq_ok, Array.getElem?_setIfInBounds] at known
      split at known
      · split at known <;> cases known
        exact Global.number_set stored
      · exact intact.numbers g' global' (global_eq_ok.mpr known)

theorem sameBindings_newMemory (ran : newMemory limits s = .ok (m, s')) :
    s.SameBindings s' ∧ ∃ memory, s'.memory m = .ok memory ∧ memory.limits = limits := by
  unfold newMemory at ran
  cases made : Memory.new limits with
  | error f =>
    rw [made] at ran
    cases ran
  | ok memory =>
    rw [made] at ran
    cases ran
    unfold Memory.new at made
    simp only at made
    split at made <;> cases made
    refine ⟨Grows.sameBindings { Grows.refl s with memories := fun m memory known => ?_ } rfl rfl rfl
      rfl, ⟨limits.min, limits.max, ∅⟩, memory_eq_ok.mpr (by simp), rfl⟩
    exact ⟨memory, memory_eq_ok.mpr (getElem?_push_of_some (memory_eq_ok.mp known)),
      Limits.satisfies_refl _⟩

/-- A memory that is replaced by one with no less room. -/
private theorem sameBindings_setMemory {memory changed : Memory} (held : s.memory m = .ok memory)
    (more : changed.limits.satisfies memory.limits = true) :
    s.SameBindings { s with memories := s.memories.setIfInBounds m.index changed } := by
  refine Grows.sameBindings { Grows.refl s with memories := fun m' memory' known => ?_ } rfl rfl rfl rfl
  rcases getElem?_set_of_some (b := changed) (memory_eq_ok.mp known) (memory_eq_ok.mp held) with
    ⟨kept, _⟩ | ⟨replaced, same⟩
  · exact ⟨memory', memory_eq_ok.mpr kept, Limits.satisfies_refl _⟩
  · exact ⟨changed, memory_eq_ok.mpr replaced, same ▸ more⟩

theorem sameBindings_growMemory {delta before : Nat}
    (ran : growMemory m delta s = .ok (before, s')) : s.SameBindings s' := by
  unfold growMemory at ran
  obtain ⟨memory, held, ran⟩ := bind_eq_ok ran
  cases grown : memory.grow delta with
  | error f =>
    rw [grown] at ran
    cases ran
  | ok result =>
    rw [grown] at ran
    cases ran
    exact sameBindings_setMemory held (Memory.limits_grow grown)

theorem sameBindings_writeMemory {offset : Nat} {bytes : List UInt8}
    (ran : writeMemory m offset bytes s = .ok ((), s')) : s.SameBindings s' := by
  unfold writeMemory at ran
  obtain ⟨memory, held, ran⟩ := bind_eq_ok ran
  cases written : memory.write offset bytes with
  | error f =>
    rw [written] at ran
    cases ran
  | ok changed =>
    rw [written] at ran
    cases ran
    apply sameBindings_setMemory held
    rw [Memory.limits_write written]
    exact Limits.satisfies_refl _

theorem sameBindings_newTable (ran : newTable limits s = .ok (t, s')) :
    s.SameBindings s' ∧ ∃ table, s'.table t = .ok table ∧ table.limits = limits := by
  unfold newTable at ran
  cases made : Table.new limits with
  | error f =>
    rw [made] at ran
    cases ran
  | ok table =>
    rw [made] at ran
    cases ran
    unfold Table.new at made
    split at made <;> cases made
    refine ⟨Grows.sameBindings { Grows.refl s with tables := fun t table known => ?_ } rfl rfl rfl rfl,
      ⟨limits.max, Array.replicate limits.min none⟩, table_eq_ok.mpr (by simp), ?_⟩
    · exact ⟨table, table_eq_ok.mpr (getElem?_push_of_some (table_eq_ok.mp known)),
        Limits.satisfies_refl _⟩
    · simp [Table.limits, Table.size]

/-- A table that is replaced by one with no less room. -/
private theorem sameBindings_setTable {table changed : Table} (held : s.table t = .ok table)
    (more : changed.limits.satisfies table.limits = true) :
    s.SameBindings { s with tables := s.tables.setIfInBounds t.index changed } := by
  refine Grows.sameBindings { Grows.refl s with tables := fun t' table' known => ?_ } rfl rfl rfl rfl
  rcases getElem?_set_of_some (b := changed) (table_eq_ok.mp known) (table_eq_ok.mp held) with
    ⟨kept, _⟩ | ⟨replaced, same⟩
  · exact ⟨table', table_eq_ok.mpr kept, Limits.satisfies_refl _⟩
  · exact ⟨changed, table_eq_ok.mpr replaced, same ▸ more⟩

theorem sameBindings_writeTable {index : Nat} {element : Option FunctionId}
    (ran : writeTable t index element s = .ok ((), s')) : s.SameBindings s' := by
  unfold writeTable at ran
  obtain ⟨table, held, ran⟩ := bind_eq_ok ran
  cases written : table.set index element with
  | error f =>
    rw [written] at ran
    cases ran
  | ok changed =>
    rw [written] at ran
    cases ran
    apply sameBindings_setTable held
    rw [Table.limits_set written]
    exact Limits.satisfies_refl _

theorem sameBindings_growTable {delta before : Nat} {element : Option FunctionId}
    (ran : growTable t delta element s = .ok (before, s')) : s.SameBindings s' := by
  unfold growTable at ran
  obtain ⟨table, held, ran⟩ := bind_eq_ok ran
  cases grown : table.grow delta element with
  | error f =>
    rw [grown] at ran
    cases ran
  | ok result =>
    rw [grown] at ran
    cases ran
    exact sameBindings_setTable held (Table.limits_grow grown)

theorem grows_addFunction (s : Store κ) (name : String) (callable : Callable κ) :
    s.Grows (s.addFunction name callable).2 :=
  { Grows.refl s with functions := fun _ _ known =>
      function_eq_ok.mpr (getElem?_push_of_some (function_eq_ok.mp known)) }

theorem function_addFunction (s : Store κ) (name : String) (callable : Callable κ) :
    (s.addFunction name callable).2.function (s.addFunction name callable).1 = .ok ⟨name, callable⟩ :=
  function_eq_ok.mpr (by simp [addFunction])

/-- The functions that there are when one is added. -/
theorem function_addFunction_cases {name : String} {callable : Callable κ} {f : FunctionId}
    {function : Function κ} (known : (s.addFunction name callable).2.function f = .ok function) :
    f = (s.addFunction name callable).1 ∧ function = ⟨name, callable⟩ ∨
      s.function f = .ok function := by
  rw [function_eq_ok, addFunction, Array.getElem?_push] at known
  split at known
  · next last =>
    cases known
    exact .inl ⟨congrArg FunctionId.mk last, rfl⟩
  · exact .inr (function_eq_ok.mpr known)

/-- A function is added. The module that a binary function belongs to must be there, and so
must the function that an adapter stands for. -/
theorem sameBindings_addFunction (s : Store κ) (name : String) {callable : Callable κ}
    (homed : ∀ type code home, callable = .binary type code home → s.Present home)
    (aimed : ∀ type target, callable = .adapter type target → s.Unsigned target) :
    s.SameBindings (s.addFunction name callable).2 := by
  have grows := grows_addFunction s name callable
  refine ⟨grows, rfl, rfl, fun intact => ⟨intact.numbers,
    fun f function type code home known binary => ?_,
    fun f function type target known adapter => ?_⟩⟩
  · rcases function_addFunction_cases known with ⟨_, rfl⟩ | known
    · exact homed type code home binary
    · exact intact.homes f function type code home known binary
  · rcases function_addFunction_cases known with ⟨_, rfl⟩ | known
    · exact (aimed type target adapter).kept grows.toKeeps
    · exact (intact.targets f function type target known adapter).kept grows.toKeeps

end Objects

/-! ## Slots and environments -/

section Bindings

theorem grows_addSlot (s : Store κ) (slot : Slot) : s.Grows (s.addSlot slot).2 :=
  { Grows.refl s with slots := fun _ held known => ⟨held.content, getElem?_push_of_some known⟩ }

theorem slot?_modifySlot (s : Store κ) (i j : SlotId) (change : Slot → Slot) :
    (s.modifySlot i change).slot? j = if i = j then (s.slot? j).map change else s.slot? j := by
  by_cases same : i = j
  · subst same
    simp [modifySlot, slot?, Array.getElem?_modify]
  · have places : i.index ≠ j.index := fun h => same (by cases i; cases j; cases h; rfl)
    simp [modifySlot, slot?, Array.getElem?_modify, same, places]

/-- A change of what a slot holds. -/
theorem grows_modifySlot {i : SlotId} {change : Slot → Slot}
    (kept : ∀ slot, ∃ content, change slot = { slot with content }) :
    s.Grows (s.modifySlot i change) := by
  refine { Grows.refl s with slots := fun j slot known => ?_ }
  rw [slot?_modifySlot, known]
  by_cases same : i = j
  · obtain ⟨content, changed⟩ := kept slot
    exact ⟨content, by rw [if_pos same, Option.map_some, changed]⟩
  · exact ⟨slot.content, by rw [if_neg same]⟩

theorem setLive_content (value : Value) (slot : Slot) :
    ∃ content, slot.setLive value = { slot with content } := ⟨.live value, rfl⟩

theorem setSnapshot_content (value : Value) (slot : Slot) :
    ∃ content, slot.setSnapshot value = { slot with content } := ⟨.snapshot value, rfl⟩

theorem enterDeadZone_content (slot : Slot) :
    ∃ content, slot.enterDeadZone = { slot with content } := by
  unfold Slot.enterDeadZone
  split
  · exact ⟨.deadZone, rfl⟩
  · exact ⟨slot.content, rfl⟩

theorem environment_eq_ok {e : EnvironmentId} {environment : Environment} :
    s.environment e = .ok environment ↔ s.environment? e = some environment := by
  unfold Store.environment
  cases s.environment? e <;> simp

theorem readSlot_eq_ok {i : SlotId} {value : Value} (ran : s.readSlot i = .ok value) :
    ∃ slot, s.slot? i = some slot ∧ slot.value? = some value := by
  unfold readSlot at ran
  cases known : s.slot? i with
  | none =>
    rw [known] at ran
    cases ran
  | some slot =>
    rw [known] at ran
    unfold Slot.read at ran
    simp only at ran
    cases held : slot.value? with
    | none =>
      rw [held] at ran
      cases ran
    | some found =>
      rw [held] at ran
      cases ran
      exact ⟨slot, rfl, held⟩

theorem readEntity_eq_ok {e : EnvironmentId} {name : String} {value : Value}
    (ran : s.readEntity e name = .ok value) : ∃ environment,
      s.environment? e = some environment ∧ environment.entities.get? name = some value := by
  unfold readEntity at ran
  obtain ⟨environment, known, ran⟩ := bind_eq_ok ran
  cases held : environment.entities.get? name with
  | none =>
    rw [held] at ran
    cases ran
  | some found =>
    rw [held] at ran
    cases ran
    exact ⟨environment, environment_eq_ok.mp known, held⟩

theorem environment?_modifySlot (s : Store κ) (i : SlotId) (change : Slot → Slot)
    (e : EnvironmentId) : (s.modifySlot i change).environment? e = s.environment? e := rfl

theorem environment?_install (s : Store κ) (e e' : EnvironmentId) (name : String) (value : Value) :
    (s.install e name value).environment? e' =
      if e = e' then (s.environment? e').map fun environment =>
        { environment with entities := environment.entities.put name value }
      else s.environment? e' := by
  by_cases same : e = e'
  · subst same
    simp [install, modifyEnvironment, environment?, Array.getElem?_modify]
  · have places : e.index ≠ e'.index := fun h => same (by cases e; cases e'; cases h; rfl)
    simp [install, modifyEnvironment, environment?, Array.getElem?_modify, same, places]

theorem grows_install (s : Store κ) (e : EnvironmentId) (name : String) (value : Value) :
    s.Grows (s.install e name value) := by
  refine { Grows.refl s with environments := fun e' environment known => ?_ }
  rw [environment?_install, known]
  by_cases same : e = e'
  · exact ⟨_, by rw [if_pos same, Option.map_some]⟩
  · exact ⟨environment.entities, by rw [if_neg same]⟩

theorem grows_addEnvironment (s : Store κ) (environment : Environment) :
    s.Grows (s.addEnvironment environment).2 :=
  { Grows.refl s with
    environments := fun _ held known => ⟨held.entities, getElem?_push_of_some known⟩ }

theorem assign_eq_ok {e : EnvironmentId} {name : String} {value : Value}
    (ran : assign e name value s = .ok ((), s')) :
    ∃ environment i, s.environment? e = some environment ∧ environment.locals.get? name = some i ∧
      s' = s.modifySlot i fun slot => slot.setLive value := by
  unfold assign at ran
  obtain ⟨environment, held, ran⟩ := bind_eq_ok ran
  split at ran
  · cases ran
  cases found : environment.locals.get? name with
  | none =>
    rw [found] at ran
    cases ran
  | some i =>
    rw [found] at ran
    cases ran
    exact ⟨environment, i, environment_eq_ok.mp held, found, rfl⟩

theorem grows_assign {e : EnvironmentId} {name : String} {value : Value}
    (ran : assign e name value s = .ok ((), s')) : s.Grows s' := by
  obtain ⟨_, _, _, _, rfl⟩ := assign_eq_ok ran
  exact grows_modifySlot (setLive_content value)

end Bindings

end Store
end MixedModules
