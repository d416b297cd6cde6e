import MixedModules.Proofs.Resource.Memory
import MixedModules.Proofs.Store.Objects

/-! Objects that last.

An object keeps its type and its bounds, grows and never shrinks, and stays within its bounds,
whatever operation comes. An immutable global keeps its number, and in a table only the element
that is set becomes another. -/
namespace MixedModules

variable {κ : Type} {ε : Type}

/-! ## Single objects -/

private theorem map_eq_ok {α β : Type} {x : Except ε α} {f : α → β} {b : β}
    (ran : x.map f = .ok b) : ∃ a, x = .ok a ∧ f a = b := by
  cases x with
  | error e => cases ran
  | ok a => exact ⟨a, rfl, Except.ok.inj ran⟩

namespace Global

/-- A global holds a number of its declared type. -/
def Bounded (g : Global) : Prop := g.value.type = g.type.value

/-- A later state of a global. -/
structure Becomes (g g' : Global) : Prop where
  type : g'.type = g.type
  immutable : g.type.isMutable = false → g'.value = g.value

theorem Becomes.refl (g : Global) : g.Becomes g := ⟨rfl, fun _ => rfl⟩

theorem Becomes.trans {g g' g'' : Global} (first : g.Becomes g') (second : g'.Becomes g'') :
    g.Becomes g'' where
  type := second.type.trans first.type
  immutable fixed := (second.immutable (first.type ▸ fixed)).trans (first.immutable fixed)

theorem becomes_set {g g' : Global} {value : Raw} (ran : g.set value = .ok g') :
    g.Becomes g' ∧ g'.Bounded := by
  refine ⟨⟨type_set ran, fun fixed => ?_⟩, number_set ran⟩
  simp [set, fixed] at ran

theorem bounded_new {type : GlobalType} {initial : Raw} {g : Global}
    (made : new type initial = .ok g) : g.Bounded := by
  unfold new at made
  split at made
  · next fits =>
    cases made
    exact fits
  · cases made

end Global

namespace Memory

/-- A later state of a memory. -/
structure Becomes (m m' : Memory) : Prop where
  maximum : m'.maximum = m.maximum
  larger : m.pages ≤ m'.pages

theorem Becomes.refl (m : Memory) : m.Becomes m := ⟨rfl, Nat.le_refl _⟩

theorem Becomes.trans {m m' m'' : Memory} (first : m.Becomes m') (second : m'.Becomes m'') :
    m.Becomes m'' :=
  ⟨second.maximum.trans first.maximum, Nat.le_trans first.larger second.larger⟩

theorem becomes_grow {m m' : Memory} {delta before : Nat} (ran : m.grow delta = .ok (before, m')) :
    m.Becomes m' ∧ (m.Bounded → m'.Bounded) := by
  unfold grow at ran
  split at ran
  · next room =>
    cases ran
    exact ⟨⟨rfl, Nat.le_add_right ..⟩, fun bounded => ⟨room, bounded.most⟩⟩
  · cases ran

theorem becomes_write {m m' : Memory} {offset : Nat} {bytes : List UInt8}
    (ran : m.write offset bytes = .ok m') : m.Becomes m' ∧ (m.Bounded → m'.Bounded) := by
  unfold write check at ran
  split at ran
  · cases ran
    exact ⟨⟨rfl, Nat.le_refl _⟩, fun bounded => ⟨bounded.within, bounded.most⟩⟩
  · cases ran

end Memory

namespace Table

/-- The most elements that a table may have: its maximum may be greater. -/
def room (t : Table) : Nat := min (t.maximum.getD greatestSize) greatestSize

/-- A table within its room. -/
def Bounded (t : Table) : Prop := t.size ≤ t.room

/-- A later state of a table. -/
structure Becomes (t t' : Table) : Prop where
  maximum : t'.maximum = t.maximum
  larger : t.size ≤ t'.size

theorem Becomes.refl (t : Table) : t.Becomes t := ⟨rfl, Nat.le_refl _⟩

theorem Becomes.trans {t t' t'' : Table} (first : t.Becomes t') (second : t'.Becomes t'') :
    t.Becomes t'' :=
  ⟨second.maximum.trans first.maximum, Nat.le_trans first.larger second.larger⟩

theorem becomes_set {t t' : Table} {index : Nat} {element : Option FunctionId}
    (ran : t.set index element = .ok t') : t.Becomes t' ∧ (t.Bounded → t'.Bounded) := by
  unfold set at ran
  split at ran
  · cases ran
    exact ⟨⟨rfl, by simp [size]⟩, fun bounded => by simpa [Bounded, room, size] using bounded⟩
  · cases ran

theorem becomes_grow {t t' : Table} {delta before : Nat} {element : Option FunctionId}
    (ran : t.grow delta element = .ok (before, t')) :
    t.Becomes t' ∧ (t.Bounded → t'.Bounded) := by
  unfold grow at ran
  split at ran
  · next fits =>
    cases ran
    exact ⟨⟨rfl, by simp [size]⟩, fun _ => by simpa [Bounded, room, size] using fits⟩
  · cases ran

/-- A table may declare any maximum that is not below its minimum. -/
theorem maximum_new {limits : Limits} (valid : limits.isValid) (few : limits.min ≤ greatestSize) :
    ∃ t, new limits = .ok t ∧ t.maximum = limits.max :=
  ⟨_, if_pos (by simpa [valid] using few), rfl⟩

theorem bounded_new {limits : Limits} {t : Table} (made : new limits = .ok t) : t.Bounded := by
  unfold new at made
  split at made
  · next fits =>
    cases made
    rw [Bool.and_eq_true, decide_eq_true_eq] at fits
    obtain ⟨valid, fits⟩ := fits
    unfold Limits.isValid at valid
    cases bound : limits.max with
    | none => simpa [Bounded, room, size, bound] using fits
    | some max =>
      have valid : limits.min ≤ max := by simpa [bound] using valid
      simpa [Bounded, room, size, bound] using ⟨valid, fits⟩
  · cases made

end Table

/-! ## Rows of objects -/

section Rows

variable {α : Type} (Bounded : α → Prop) (Becomes : α → α → Prop)

/-- Objects of a row in a later row, where they are within their bounds if all were before. -/
structure Lasting (row row' : Array α) : Prop where
  becomes : ∀ (i : Nat) a, row[i]? = some a → ∃ a', row'[i]? = some a' ∧ Becomes a a'
  bounded : (∀ a ∈ row, Bounded a) → ∀ a ∈ row', Bounded a

variable {Bounded Becomes} {row : Array α} (refl : ∀ a, Becomes a a)

include refl

private theorem lasting_refl (row : Array α) : Lasting Bounded Becomes row row :=
  ⟨fun _ a held => ⟨a, held, refl a⟩, fun bounded => bounded⟩

private theorem lasting_push {a : α} (bounded : Bounded a) :
    Lasting Bounded Becomes row (row.push a) := by
  refine ⟨fun i b held => ⟨b, Store.getElem?_push_of_some held, refl b⟩, fun all b member => ?_⟩
  rcases Array.mem_push.mp member with member | rfl
  · exact all b member
  · exact bounded

private theorem lasting_made {made : Except ε α} (bounded : ∀ a, made = .ok a → Bounded a) :
    Lasting Bounded Becomes row (attempted row (made.map row.push)) := by
  cases made with
  | error e => exact lasting_refl refl row
  | ok a => exact lasting_push refl (bounded a rfl)

private theorem lasting_modify {i : Nat} {attempt : α → Except ε α}
    (step : ∀ a a', attempt a = .ok a' → Becomes a a' ∧ (Bounded a → Bounded a')) :
    Lasting Bounded Becomes row (row.modify i fun a => attempted a (attempt a)) := by
  have each (a : α) : Becomes a (attempted a (attempt a)) ∧
      (Bounded a → Bounded (attempted a (attempt a))) := by
    cases ran : attempt a with
    | error e => exact ⟨refl a, id⟩
    | ok a' => exact step a a' ran
  refine ⟨fun j a held => ?_, fun all a member => ?_⟩
  · rw [Array.getElem?_modify, held]
    split
    · exact ⟨_, rfl, (each a).1⟩
    · exact ⟨a, rfl, refl a⟩
  · obtain ⟨j, held⟩ := Array.getElem?_of_mem member
    rw [Array.getElem?_modify] at held
    split at held
    · obtain ⟨b, there, rfl⟩ := Option.map_eq_some_iff.mp held
      exact (each b).2 (all b (Array.mem_of_getElem? there))
    · exact all a (Array.mem_of_getElem? held)

end Rows

namespace Store

variable {s s' s'' : Store κ} {o : Operation κ}

theorem Operates.lasting_globals (operates : Operates o s s') :
    Lasting Global.Bounded Global.Becomes s.globals s'.globals := by
  rcases operates.globals with changed | ⟨type, initial, global, made, changed⟩
  · rw [changed]
    cases o with
    | writeGlobal g value =>
      exact lasting_modify Global.Becomes.refl fun global global' ran =>
        ⟨(Global.becomes_set ran).1, fun _ => (Global.becomes_set ran).2⟩
    | _ => exact lasting_refl Global.Becomes.refl s.globals
  · rw [changed]
    exact lasting_push Global.Becomes.refl (Global.bounded_new made)

theorem Operates.lasting_memories (operates : Operates o s s') :
    Lasting Memory.Bounded Memory.Becomes s.memories s'.memories := by
  rw [operates.memories]
  cases o with
  | newMemory limits =>
    exact lasting_made Memory.Becomes.refl fun memory made =>
      (Memory.contents_new made).2.2.2.toBounded
  | growMemory m delta =>
    refine lasting_modify Memory.Becomes.refl fun memory memory' ran => ?_
    obtain ⟨⟨before, grown⟩, grows, rfl⟩ := map_eq_ok ran
    exact Memory.becomes_grow grows
  | writeMemory m offset bytes => exact lasting_modify Memory.Becomes.refl fun _ _ => Memory.becomes_write
  | _ => exact lasting_refl Memory.Becomes.refl s.memories

theorem Operates.lasting_tables (operates : Operates o s s') :
    Lasting Table.Bounded Table.Becomes s.tables s'.tables := by
  rw [operates.tables]
  cases o with
  | newTable limits =>
    exact lasting_made Table.Becomes.refl fun table => Table.bounded_new
  | growTable t delta element =>
    refine lasting_modify Table.Becomes.refl fun table table' ran => ?_
    obtain ⟨⟨before, grown⟩, grows, rfl⟩ := map_eq_ok ran
    exact Table.becomes_grow grows
  | writeTable t index element => exact lasting_modify Table.Becomes.refl fun _ _ => Table.becomes_set
  | _ => exact lasting_refl Table.Becomes.refl s.tables

/-! ## Stores -/

/-- All objects are within their bounds. -/
structure Bounded (s : Store κ) : Prop where
  globals : ∀ global ∈ s.globals, global.Bounded
  memories : ∀ memory ∈ s.memories, memory.Bounded
  tables : ∀ table ∈ s.tables, table.Bounded

theorem Bounded.empty : (Store.empty : Store κ).Bounded :=
  ⟨by simp [Store.empty], by simp [Store.empty], by simp [Store.empty]⟩

/-- Every handle means a later state of the same object. -/
structure Lasts (s s' : Store κ) : Prop where
  globals : ∀ g global, s.global g = .ok global →
    ∃ global', s'.global g = .ok global' ∧ global.Becomes global'
  memories : ∀ m memory, s.memory m = .ok memory →
    ∃ memory', s'.memory m = .ok memory' ∧ memory.Becomes memory'
  tables : ∀ t table, s.table t = .ok table →
    ∃ table', s'.table t = .ok table' ∧ table.Becomes table'

theorem Lasts.trans (first : s.Lasts s') (second : s'.Lasts s'') : s.Lasts s'' where
  globals g global known := by
    obtain ⟨global', known, one⟩ := first.globals g global known
    obtain ⟨global'', known, other⟩ := second.globals g global' known
    exact ⟨global'', known, one.trans other⟩
  memories m memory known := by
    obtain ⟨memory', known, one⟩ := first.memories m memory known
    obtain ⟨memory'', known, other⟩ := second.memories m memory' known
    exact ⟨memory'', known, one.trans other⟩
  tables t table known := by
    obtain ⟨table', known, one⟩ := first.tables t table known
    obtain ⟨table'', known, other⟩ := second.tables t table' known
    exact ⟨table'', known, one.trans other⟩

theorem Operates.lasts (operates : Operates o s s') : s.Lasts s' where
  globals g global known := by
    simpa only [global_eq_ok] using
      operates.lasting_globals.becomes g.index global (global_eq_ok.mp known)
  memories m memory known := by
    simpa only [memory_eq_ok] using
      operates.lasting_memories.becomes m.index memory (memory_eq_ok.mp known)
  tables t table known := by
    simpa only [table_eq_ok] using
      operates.lasting_tables.becomes t.index table (table_eq_ok.mp known)

theorem Operates.bounded (operates : Operates o s s') (bounded : s.Bounded) : s'.Bounded where
  globals := operates.lasting_globals.bounded bounded.globals
  memories := operates.lasting_memories.bounded bounded.memories
  tables := operates.lasting_tables.bounded bounded.tables

/-! ## Steps -/

/-- The same objects, whatever else differs. -/
structure SameObjects (s s' : Store κ) : Prop where
  globals : s'.globals = s.globals
  memories : s'.memories = s.memories
  tables : s'.tables = s.tables

theorem SameObjects.refl (s : Store κ) : s.SameObjects s := ⟨rfl, rfl, rfl⟩

theorem SameObjects.trans (first : s.SameObjects s') (second : s'.SameObjects s'') :
    s.SameObjects s'' :=
  ⟨second.globals.trans first.globals, second.memories.trans first.memories,
    second.tables.trans first.tables⟩

/-- A store with the objects that one operation makes of those that there were. -/
def Evolves (s s' : Store κ) : Prop := ∃ o : Operation κ, (s.after o).SameObjects s'

namespace Evolves

theorem of_same (same : s.SameObjects s') : s.Evolves s' := ⟨.describe .undefined, same⟩

/-- An operation, and what leaves objects alone after it. -/
theorem of_perform (o : Operation κ) {a : o.Answer} {s₁ : Store κ} (ran : o.perform s = .ok (a, s₁))
    (same : s₁.SameObjects s') : s.Evolves s' := ⟨o, (after_of_ok ran).symm ▸ same⟩

theorem operates (evolves : s.Evolves s') : ∃ o, Operates o s s' := by
  obtain ⟨o, same⟩ := evolves
  have step := s.operates o
  exact ⟨o, by rw [same.globals]; exact step.globals, same.memories.trans step.memories,
    same.tables.trans step.tables⟩

theorem lasts (evolves : s.Evolves s') : s.Lasts s' := evolves.operates.choose_spec.lasts

theorem bounded (evolves : s.Evolves s') (bounded : s.Bounded) : s'.Bounded :=
  evolves.operates.choose_spec.bounded bounded

end Evolves

/-! ## Elements of tables -/

end Store

/-- What an operation does to the elements of a table that has room for `room` of them. -/
def Operation.onElements (t : TableId) (room : Nat) (row : List (Option FunctionId)) :
    Operation κ → List (Option FunctionId)
  | writeTable t' index element => if t' = t then row.set index element else row
  | growTable t' delta element =>
    if t' = t ∧ row.length + delta ≤ room then row ++ List.replicate delta element else row
  | _ => row

namespace Store

variable {s : Store κ} {t : TableId} {table : Table}

/-- Only an element that is set becomes another, and elements that are added are the given one. -/
theorem elements_after (known : s.table t = .ok table) (o : Operation κ) :
    ∃ table', (s.after o).table t = .ok table' ∧ table'.maximum = table.maximum ∧
      table'.elements.toList = o.onElements t table.room table.elements.toList := by
  rw [table_eq_ok] at known
  simp only [table_eq_ok, (operates s o).tables]
  cases o with
  | newTable limits =>
    exact ⟨table, getElem?_attempted_push known _, rfl, rfl⟩
  | writeTable t' index element =>
    refine ⟨_, getElem?_modified tableId_eq_iff known _, ?_⟩
    rw [Operation.onElements]
    by_cases same : t' = t
    · rw [if_pos same, if_pos same]
      unfold Table.set
      split
      · exact ⟨rfl, Array.toList_setIfInBounds⟩
      · next beyond =>
        have outside : table.elements.toList.length ≤ index := by simpa [Table.size] using beyond
        exact ⟨rfl, (List.set_eq_of_length_le outside).symm⟩
    · rw [if_neg same, if_neg same]
      exact ⟨rfl, rfl⟩
  | growTable t' delta element =>
    refine ⟨_, getElem?_modified tableId_eq_iff known _, ?_⟩
    rw [Operation.onElements]
    by_cases same : t' = t
    · rw [if_pos same, Array.length_toList]
      unfold Table.grow
      split
      · next fits =>
        rw [if_pos ⟨same, fits⟩]
        exact ⟨rfl, by simp [attempted, Except.map]⟩
      · next full =>
        rw [if_neg fun both => full both.2]
        exact ⟨rfl, rfl⟩
    · rw [if_neg same, if_neg fun both => same both.1]
      exact ⟨rfl, rfl⟩
  | _ => exact ⟨table, known, rfl, rfl⟩

end Store
end MixedModules
