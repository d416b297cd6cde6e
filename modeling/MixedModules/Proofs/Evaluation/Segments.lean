import Mathlib.Data.List.Forall2
import MixedModules.Proofs.Evaluation.Filling
import MixedModules.Proofs.Execution.Ending

/-! What the segments of a binary module write when one of them does not fit.

The segments are applied in order, and the first one that does not fit ends the
instantiation. A data segment is checked as a whole, so it writes nothing then. The functions
of an element segment are checked one by one as they are written, so those that do fit stay in
the table, which others may share. -/
namespace MixedModules

variable {κ σ α : Type}

namespace Table

/-- A table with functions put into it one after the other, from an index on. -/
def put (t : Table) : Nat → List FunctionId → Table
  | _, [] => t
  | index, f :: rest =>
    ({ t with elements := t.elements.setIfInBounds index (some f) } : Table).put (index + 1) rest

theorem size_put (t : Table) (index : Nat) (fs : List FunctionId) : (t.put index fs).size = t.size := by
  induction fs generalizing t index with
  | nil => rfl
  | cons f rest ih => rw [put, ih, size, Array.size_setIfInBounds, ← size]

/-- The functions stand where they were put, and all other elements are as they were. -/
theorem getElem?_put (t : Table) (index j : Nat) (fs : List FunctionId) :
    (t.put index fs).elements[j]? =
      if index ≤ j ∧ j < index + fs.length ∧ j < t.size then some fs[j - index]?
      else t.elements[j]? := by
  induction fs generalizing t index with
  | nil => rw [put, if_neg (by simp only [List.length_nil]; omega)]
  | cons f rest ih =>
    have size : ({ t with elements := t.elements.setIfInBounds index (some f) } : Table).size = t.size :=
      Array.size_setIfInBounds
    rw [put, ih, size, Array.getElem?_setIfInBounds, List.length_cons]
    rcases Nat.lt_trichotomy index j with before | rfl | after
    · have shift : j - index = j - (index + 1) + 1 := by omega
      rw [if_neg (show ¬ index = j by omega), shift, List.getElem?_cons_succ]
      congr 1
      rw [eq_iff_iff]
      omega
    · rw [if_neg (by omega), if_pos rfl, Nat.sub_self, List.getElem?_cons_zero]
      by_cases inside : index < t.size
      · rw [if_pos (by exact inside), if_pos (by omega)]
      · rw [if_neg (by exact inside), if_neg (by omega)]
        exact (Array.getElem?_eq_none (Nat.le_of_not_lt inside)).symm
    · rw [if_neg (by omega), if_neg (by omega), if_neg (by omega)]

end Table

/-- What a segment traps for because it does not fit. -/
def TrapCause.Misfits : TrapCause → Prop
  | .data _ (.memoryBounds ..) | .elements _ (.tableIndex ..) | .elementOverflow _ => True
  | _ => False

namespace Store

variable {s s' : Store κ} {e : EnvironmentId} {identity name : String} {err : EvalError}
  {m : MemoryId} {memory : Memory} {t : TableId} {table : Table}

/-! ## Segments that do not fit -/

theorem writeMemory_eq_error {offset : Nat} {bytes : List UInt8} (held : s.memory m = .ok memory) :
    writeMemory m offset bytes s = .error err ↔ memory.size < offset + bytes.length ∧
      err = .type (.memoryBounds bytes.length offset memory.size) := by
  by_cases fits : offset + bytes.length ≤ memory.size
  · have written : memory.write offset bytes =
        .ok { memory with written := Memory.putBytes memory.written offset bytes } := by
      simp [Memory.write, Memory.check, fits, Except.map]
    simp only [writeMemory, held, bind, Except.bind, written]
    exact ⟨fun failed => (by cases failed), fun ⟨outside, _⟩ => absurd fits (by omega)⟩
  · have refused : writeMemory m offset bytes s =
        .error (.type (.memoryBounds bytes.length offset memory.size)) := by
      simp only [writeMemory, held, bind, Except.bind, Memory.write, Memory.check, if_neg fits]
      rfl
    rw [refused, Except.error.injEq, eq_comm, and_iff_right (by omega)]

theorem writeTable_eq_error {index : Nat} {element : Option FunctionId}
    (held : s.table t = .ok table) : writeTable t index element s = .error err ↔
      table.size ≤ index ∧ err = .type (.tableIndex index table.size) := by
  by_cases fits : index < table.size
  · simp only [writeTable, held, bind, Except.bind, Table.set, if_pos fits]
    exact ⟨fun failed => (by cases failed), fun ⟨outside, _⟩ => absurd fits (by omega)⟩
  · have refused : writeTable t index element s = .error (.type (.tableIndex index table.size)) := by
      simp only [writeTable, held, bind, Except.bind, Table.set, if_neg fits]
      rfl
    rw [refused, Except.error.injEq, eq_comm, and_iff_right (by omega)]

/-- A data segment whose memory is there fails when it does not fit. -/
theorem applyData_eq_error {segment : DataSegment}
    (target : s.readEntityAs .memory Value.memory? e segment.memory = .ok m)
    (held : s.memory m = .ok memory) : applyData e identity segment s = .error err ↔
      memory.size < segment.offset + segment.bytes.length ∧ err = .trap identity
        (.data segment.memory (.memoryBounds segment.bytes.length segment.offset memory.size)) := by
  simp only [applyData, target, bind, Except.bind, trapOf]
  cases written : writeMemory m segment.offset segment.bytes s with
  | ok _ =>
    refine ⟨fun failed => (by cases failed), fun ⟨outside, _⟩ => ?_⟩
    cases written.symm.trans ((writeMemory_eq_error held).mpr ⟨outside, rfl⟩)
  | error reason =>
    obtain ⟨outside, rfl⟩ := (writeMemory_eq_error held).mp written
    simp only [Except.mapError, Except.error.injEq, eq_comm, and_iff_right outside]

/-- One function of an element segment whose table is there fails when its index overflows or
is none of the table. -/
theorem applyElement_eq_error {segment : ElementSegment} {i : Nat} {f : FunctionId}
    (inside : segment.offset + i < indexBound)
    (named : s.readEntityAs .function Value.function? e name = .ok f)
    (held : s.table t = .ok table) : applyElement e identity segment t i name s = .error err ↔
      table.size ≤ segment.offset + i ∧ err = .trap identity
        (.elements segment.table (.tableIndex (segment.offset + i) table.size)) := by
  simp only [applyElement, if_neg (Nat.not_le.mpr inside), named, bind, Except.bind, trapOf]
  cases written : writeTable t (segment.offset + i) (some f) s with
  | ok _ =>
    refine ⟨fun failed => (by cases failed), fun ⟨outside, _⟩ => ?_⟩
    cases written.symm.trans ((writeTable_eq_error held).mpr ⟨outside, rfl⟩)
  | error reason =>
    obtain ⟨outside, rfl⟩ := (writeTable_eq_error held).mp written
    simp only [Except.mapError, Except.error.injEq, eq_comm, and_iff_right outside]

/-- A name that cannot be read is no reason for a trap. -/
theorem readEntityAs_ne_trap {kind : BindingKind} {part : Value → Option α} {cause : TrapCause} :
    s.readEntityAs kind part e name ≠ .error (.trap identity cause) := by
  unfold readEntityAs readEntity environment
  intro failed
  cases known : s.environment? e with
  | none => simp [known, bind, Except.bind] at failed
  | some environment =>
    cases read : environment.entities.get? name with
    | none => simp [known, read, bind, Except.bind, Environment.unbound] at failed
    | some value => cases found : part value <;> simp [known, read, found, bind, Except.bind] at failed

/-- A data segment that does not fit has a memory. -/
theorem memory_of_misfit {segment : DataSegment} {cause : TrapCause} (misfits : cause.Misfits)
    (failed : applyData e identity segment s = .error (.trap identity cause)) : ∃ m memory,
      s.readEntityAs .memory Value.memory? e segment.memory = .ok m ∧ s.memory m = .ok memory := by
  cases target : s.readEntityAs .memory Value.memory? e segment.memory with
  | error reason =>
    simp only [applyData, target, bind, Except.bind] at failed
    cases failed
    exact absurd target readEntityAs_ne_trap
  | ok m =>
    cases held : s.memory m with
    | ok memory => exact ⟨m, memory, rfl, held⟩
    | error reason =>
      obtain rfl : reason = .type (.unknownHandle .memory) := by
        unfold Store.memory at held
        split at held <;> cases held
        rfl
      simp only [applyData, target, writeMemory, held, bind, Except.bind, trapOf,
        Except.mapError] at failed
      cases failed
      exact misfits.elim

/-- A function of an element segment that does not fit has an index that overflows, or a table. -/
theorem table_of_misfit {segment : ElementSegment} {i : Nat} {cause : TrapCause}
    (misfits : cause.Misfits)
    (failed : applyElement e identity segment t i name s = .error (.trap identity cause)) :
    indexBound ≤ segment.offset + i ∧ cause = .elementOverflow segment.table ∨
      segment.offset + i < indexBound ∧ ∃ f table,
        s.readEntityAs .function Value.function? e name = .ok f ∧ s.table t = .ok table := by
  by_cases beyond : indexBound ≤ segment.offset + i
  · simp only [applyElement, if_pos beyond, bind, Except.bind] at failed
    cases failed
    exact .inl ⟨beyond, rfl⟩
  refine .inr ⟨by omega, ?_⟩
  cases named : s.readEntityAs .function Value.function? e name with
  | error reason =>
    simp only [applyElement, if_neg beyond, named, bind, Except.bind] at failed
    cases failed
    exact absurd named readEntityAs_ne_trap
  | ok f =>
    cases held : s.table t with
    | ok table => exact ⟨f, table, rfl, rfl⟩
    | error reason =>
      obtain rfl : reason = .type (.unknownHandle .table) := by
        unfold Store.table at held
        split at held <;> cases held
        rfl
      simp only [applyElement, if_neg beyond, named, writeTable, held, bind, Except.bind, trapOf,
        Except.mapError] at failed
      cases failed
      exact misfits.elim

/-! ## What is written -/

/-- Functions are put into a table, from an index on. -/
def fillTable (s : Store κ) (t : TableId) (index : Nat) (fs : List FunctionId) : Store κ :=
  { s with tables := s.tables.modify t.index fun table => table.put index fs }

theorem fillTable_nil (s : Store κ) (t : TableId) (index : Nat) : s.fillTable t index [] = s := by
  have same : s.tables.modify t.index (fun table => table.put index []) = s.tables := by
    refine Array.ext_getElem? fun j => ?_
    rw [Array.getElem?_modify]
    split <;> simp [Table.put]
  rw [fillTable, same]

theorem fillTable_cons (s : Store κ) (t : TableId) (index : Nat) (f : FunctionId)
    (fs : List FunctionId) :
    (s.fillTable t index [f]).fillTable t (index + 1) fs = s.fillTable t index (f :: fs) := by
  simp only [fillTable, mk.injEq, true_and, and_true]
  refine Array.ext_getElem? fun j => ?_
  simp only [Array.getElem?_modify]
  split
  · cases s.tables[j]? <;> rfl
  · rfl

theorem table_fillTable {index : Nat} {fs : List FunctionId}
    (held : (s.fillTable t index fs).table t = .ok table) :
    ∃ before, s.table t = .ok before ∧ table = before.put index fs := by
  rw [table_eq_ok, fillTable, Array.getElem?_modify, if_pos rfl] at held
  obtain ⟨before, there, rfl⟩ := Option.map_eq_some_iff.mp held
  exact ⟨before, table_eq_ok.mpr there, rfl⟩

/-- A function that is written is put into the table. -/
theorem applyElement_eq_ok {segment : ElementSegment} {i : Nat}
    (ran : applyElement e identity segment t i name s = .ok ((), s')) :
    segment.offset + i < indexBound ∧ ∃ f table,
      s.readEntityAs .function Value.function? e name = .ok f ∧ s.table t = .ok table ∧
      segment.offset + i < table.size ∧ s' = s.fillTable t (segment.offset + i) [f] := by
  unfold applyElement at ran
  by_cases beyond : indexBound ≤ segment.offset + i
  · simp only [if_pos beyond, bind, Except.bind] at ran
    cases ran
  simp only [if_neg beyond] at ran
  obtain ⟨f, named, ran⟩ := bind_eq_ok ran
  obtain ⟨table, held, ran⟩ := bind_eq_ok (trapOf_eq_ok ran)
  refine ⟨by omega, f, table, named, held, ?_⟩
  unfold Table.set at ran
  by_cases fits : segment.offset + i < table.size
  · simp only [if_pos fits] at ran
    cases ran
    refine ⟨fits, ?_⟩
    simp only [fillTable, mk.injEq, true_and, and_true]
    refine Array.ext_getElem? fun j => ?_
    rw [Array.getElem?_modify, Array.getElem?_setIfInBounds]
    split
    · next same =>
      subst same
      have there := table_eq_ok.mp held
      rw [if_pos (Array.getElem?_eq_some_iff.mp there).1, there]
      rfl
    · rfl
  · simp only [if_neg fits] at ran
    cases ran

end Store

namespace World

variable {w w₀ w₁ w' : World κ σ} {e : EnvironmentId} {identity : String} {record : Record κ}
  {body : BinaryBody κ} {calls : Calls κ σ} {segment : ElementSegment} {t : TableId}

/-- The definitions of a binary module are made. -/
def definitions (e : EnvironmentId) (body : BinaryBody κ) : Run (World κ σ) Unit := do
  body.globals.forM fun d => change (Store.defineGlobal e d)
  body.memories.forM fun d => change (Store.defineMemory e d)
  body.tables.forM fun d => change (Store.defineTable e d)
  body.functions.forM fun d => change (Store.defineFunction e d)

/-- Segments are applied. -/
def segments (e : EnvironmentId) (identity : String) (data : List DataSegment)
    (elements : List ElementSegment) : Run (World κ σ) Unit := do
  data.forM fun segment => change (Store.applyData e identity segment)
  elements.forM fun segment => applyElements e identity segment

/-- The start function of a binary module is called, if there is one. -/
def launch (calls : Calls κ σ) (e : EnvironmentId) (body : BinaryBody κ) : Run (World κ σ) Unit :=
  match body.start with
  | some name => do
    let _ ← (Program.invokeName e name []).run calls
  | none => pure ()

/-- What a binary module does before its exports comes in three steps. -/
theorem define_steps (calls : Calls κ σ) (e : EnvironmentId) (identity : String)
    (body : BinaryBody κ) : define calls e identity body = (do
      definitions e body
      segments e identity body.data body.elements
      launch calls e body) := by
  unfold define definitions segments launch
  cases body.start <;> simp only [bind_assoc]

/-- A binary module is instantiated in four steps. -/
theorem instantiate_steps (calls : Calls κ σ) (e : EnvironmentId) (identity : String)
    (record : Record κ) (body : BinaryBody κ) : instantiate calls e identity record body = (do
      definitions e body
      segments e identity body.data body.elements
      launch calls e body
      change (Store.publishAll e record.exports)) := by
  rw [instantiate_eq, define_steps]
  simp only [bind_assoc]

/-- The functions that a row of writes has put into a table. -/
theorem filled_of_forM {names : List String} {k : Nat}
    (ran : ((names.zipIdx k).forM fun (name, i) =>
      change (Store.applyElement e identity segment t i name) : Run (World κ σ) Unit) w =
        (some (.ok ()), w')) :
    ∃ fs, List.Forall₂ (fun name f =>
        w.store.readEntityAs .function Value.function? e name = .ok f) names fs ∧
      w'.store = w.store.fillTable t (segment.offset + k) fs ∧
      ∀ i, k ≤ i → i < k + names.length → segment.offset + i < Store.indexBound ∧
        ∃ table, w.store.table t = .ok table ∧ segment.offset + i < table.size := by
  induction names generalizing w k with
  | nil =>
    cases ran
    refine ⟨[], .nil, (Store.fillTable_nil ..).symm, fun i low high => ?_⟩
    simp only [List.length_nil] at high
    omega
  | cons name rest ih =>
    rw [List.zipIdx_cons, Run.forM_cons_apply] at ran
    obtain ⟨_, w₁, first, ran⟩ := Run.bind_eq_ok ran
    obtain ⟨s₁, made, rfl⟩ := change_eq_ok first
    obtain ⟨inside, f, table, named, held, fits, rfl⟩ := Store.applyElement_eq_ok made
    obtain ⟨fs, others, written, covered⟩ := ih ran
    refine ⟨f :: fs, .cons named others, ?_, fun i low high => ?_⟩
    · exact written.trans (Store.fillTable_cons w.store t (segment.offset + k) f fs)
    · rcases Nat.eq_or_lt_of_le low with rfl | later
      · exact ⟨inside, table, held, fits⟩
      · have inside : i < k + 1 + rest.length := by simp only [List.length_cons] at high; omega
        obtain ⟨below, after, there, size⟩ := covered i later inside
        obtain ⟨before, there', rfl⟩ := Store.table_fillTable there
        exact ⟨below, before, there', by rwa [Table.size_put] at size⟩

/-- An element segment is written in part: the functions that come first in it are in the
table, and nothing else has changed. -/
structure Wrote (e : EnvironmentId) (segment : ElementSegment) (t : TableId)
    (fs : List FunctionId) (w w' : World κ σ) : Prop where
  target : w.store.readEntityAs .table Value.table? e segment.table = .ok t
  cut : fs.length < segment.functions.length
  named : List.Forall₂ (fun name f => w.store.readEntityAs .function Value.function? e name = .ok f)
    (segment.functions.take fs.length) fs
  written : w'.store = w.store.fillTable t segment.offset fs

/-- What is left when a segment traps because it does not fit, from the world `w` on, in which
the definitions were made. Those before it were applied in full. -/
inductive Trapped (e : EnvironmentId) (identity : String) (body : BinaryBody κ)
    (w w' : World κ σ) : TrapCause → Prop
  /-- A data segment has written nothing. -/
  | data {before after : List DataSegment} {segment : DataSegment} {m : MemoryId} {memory : Memory}
      (parts : body.data = before ++ segment :: after)
      (applied : segments e identity before [] w = (some (.ok ()), w'))
      (target : w'.store.readEntityAs .memory Value.memory? e segment.memory = .ok m)
      (held : w'.store.memory m = .ok memory)
      (outside : memory.size < segment.offset + segment.bytes.length) :
      Trapped e identity body w w' (.data segment.memory
        (.memoryBounds segment.bytes.length segment.offset memory.size))
  /-- An element segment has filled the table to its end. -/
  | elements {before after : List ElementSegment} {segment : ElementSegment} {w₁ : World κ σ}
      {t : TableId} {table : Table} {fs : List FunctionId}
      (parts : body.elements = before ++ segment :: after)
      (applied : segments e identity body.data before w = (some (.ok ()), w₁))
      (wrote : Wrote e segment t fs w₁ w') (held : w₁.store.table t = .ok table)
      (fitting : fs.length = table.size - segment.offset) :
      Trapped e identity body w w' (.elements segment.table
        (.tableIndex (segment.offset + fs.length) table.size))
  /-- An element segment has written as much as there are indices. -/
  | overflow {before after : List ElementSegment} {segment : ElementSegment} {w₁ : World κ σ}
      {t : TableId} {fs : List FunctionId} (parts : body.elements = before ++ segment :: after)
      (applied : segments e identity body.data before w = (some (.ok ()), w₁))
      (wrote : Wrote e segment t fs w₁ w')
      (fitting : fs.length = Store.indexBound - segment.offset) :
      Trapped e identity body w w' (.elementOverflow segment.table)

/-- A row of writes that reached all indices but the one that is refused has reached the bound. -/
private theorem length_of_reached {offset count bound : Nat}
    (reached : 0 < count → offset + (count - 1) < bound) (refused : bound ≤ offset + count) :
    count = bound - offset := by
  omega

/-- An element segment that does not fit is written as far as it does. -/
theorem wrote_of_misfit {cause : TrapCause} (misfits : cause.Misfits)
    (failed : applyElements e identity segment w = (some (.error (.trap identity cause)), w')) :
    ∃ t fs, Wrote e segment t fs w w' ∧
      ((∃ table, w.store.table t = .ok table ∧ fs.length = table.size - segment.offset ∧
        cause = .elements segment.table (.tableIndex (segment.offset + fs.length) table.size)) ∨
      fs.length = Store.indexBound - segment.offset ∧ cause = .elementOverflow segment.table) := by
  unfold applyElements at failed
  rw [Run.bind_apply] at failed
  rcases target : reading (fun s => s.readEntityAs .table Value.table? e segment.table) w with
    ⟨_ | err | t, w₁⟩ <;> simp only [target] at failed
  · cases failed
  · cases failed
    obtain ⟨refused, -⟩ := reading_eq_error target
    exact absurd refused Store.readEntityAs_ne_trap
  obtain ⟨target, same⟩ := reading_eq_ok target
  obtain ⟨first, ⟨name, i⟩, rest, between, parts, ready, last⟩ := Run.forM_eq_error.mp failed
  obtain ⟨names, others, whole, rfl, tail⟩ := List.zipIdx_eq_append_iff.mp parts
  obtain ⟨_, later, rfl, entry, _⟩ := List.zipIdx_eq_cons_iff.mp tail.symm
  obtain ⟨rfl, rfl⟩ := Prod.mk.inj entry
  obtain ⟨fs, named, written, covered⟩ := filled_of_forM ready
  obtain ⟨refused, rfl⟩ := change_eq_error last
  have length : names.length = fs.length := named.length_eq
  have last_written (any : 0 < names.length) := covered (names.length - 1) (by omega) (by omega)
  rw [same, Nat.add_zero] at written
  rw [same] at last_written
  refine ⟨t, fs, ⟨target, ?_, ?_, written⟩, ?_⟩
  · rw [whole, List.length_append, List.length_cons]
    omega
  · rw [whole, ← length, List.take_left, ← same]
    exact named
  rw [Nat.zero_add] at refused
  rcases Store.table_of_misfit misfits refused with ⟨beyond, rfl⟩ | ⟨inside, f, table, read, held⟩
  · refine .inr ⟨?_, rfl⟩
    rw [← length]
    exact length_of_reached (fun any => (last_written any).1) beyond
  · obtain ⟨outside, reason⟩ := (Store.applyElement_eq_error inside read held).mp refused
    obtain rfl := EvalError.trap.inj reason |>.2
    rw [written] at held
    obtain ⟨before, there, rfl⟩ := Store.table_fillTable held
    rw [Table.size_put] at outside ⊢
    refine .inl ⟨before, there, ?_, by rw [length]⟩
    rw [← length]
    refine length_of_reached (fun any => ?_) outside
    obtain ⟨-, table, held, fits⟩ := last_written any
    cases there.symm.trans held
    exact fits

/-- Segments are applied when those that come first in memories and tables are. -/
theorem segments_eq_ok {data : List DataSegment} {elements : List ElementSegment}
    (copied : (data.forM fun segment => change (Store.applyData e identity segment)) w =
      (some (.ok ()), w₁))
    (written : (elements.forM fun segment => applyElements e identity segment) w₁ =
      (some (.ok ()), w')) : segments e identity data elements w = (some (.ok ()), w') := by
  unfold segments
  rw [Run.bind_apply, copied]
  exact written

/-- What segments leave of which one does not fit. -/
theorem trapped_of_misfit {cause : TrapCause} (misfits : cause.Misfits)
    (trapped : segments e identity body.data body.elements w =
      (some (.error (.trap identity cause)), w')) : Trapped e identity body w w' cause := by
  unfold segments at trapped
  rw [Run.bind_apply] at trapped
  rcases copied : (body.data.forM fun segment =>
    change (Store.applyData e identity segment) : Run (World κ σ) Unit) w with
    ⟨_ | err | _, w₁⟩ <;> simp only [copied] at trapped
  · cases trapped
  · cases trapped
    obtain ⟨before, segment, after, w₂, parts, applied, last⟩ := Run.forM_eq_error.mp copied
    obtain ⟨refused, rfl⟩ := change_eq_error last
    obtain ⟨m, memory, target, held⟩ := Store.memory_of_misfit misfits refused
    obtain ⟨outside, reason⟩ := (Store.applyData_eq_error target held).mp refused
    obtain rfl := (EvalError.trap.inj reason).2
    exact .data parts (segments_eq_ok applied rfl) target held outside
  · obtain ⟨before, segment, after, w₂, parts, applied, last⟩ := Run.forM_eq_error.mp trapped
    obtain ⟨t, fs, wrote, ⟨table, held, fitting, rfl⟩ | ⟨fitting, rfl⟩⟩ := wrote_of_misfit misfits last
    · exact .elements parts (segments_eq_ok copied applied) wrote held fitting
    · exact .overflow parts (segments_eq_ok copied applied) wrote fitting

/-- When a segment does not fit, the instantiation ends with its trap. The segments before it
were applied in full, and of the one that traps a data segment has written nothing, an element
segment all functions that come before the index that is refused. -/
theorem segment_trap_writes {cause : TrapCause} (made : definitions e body w = (some (.ok ()), w₀))
    (misfits : cause.Misfits)
    (trapped : segments e identity body.data body.elements w₀ =
      (some (.error (.trap identity cause)), w')) :
    instantiate calls e identity record body w = (some (.error (.trap identity cause)), w') ∧
      Trapped e identity body w₀ w' cause := by
  refine ⟨?_, trapped_of_misfit misfits trapped⟩
  simp only [instantiate_steps, Run.bind_apply, made, trapped]

/-- A table of two elements, and a segment of two functions from the second element on. -/
def overlong : BinaryBody Unit :=
  ⟨[], [], [⟨"t", ⟨2, none⟩⟩], [⟨"g", ⟨[], []⟩, ()⟩], [], [⟨"t", 1, ["g", "g"]⟩], none⟩

/-- A world of one module that has nothing yet. -/
def bare : World Unit Unit := .start ⟨#[], #[], #[], #[], #[], #[⟨"m", .binary, ∅, ∅, ∅, ∅⟩]⟩ ()

/-- The world in which the table and the function are there. -/
def defined : World Unit Unit := (definitions ⟨0⟩ overlong bare).2

/-- The second element of the table is written before the third is refused. -/
theorem segment_trap_writes_overlong : ∃ w' : World Unit Unit,
    (instantiate ⟨fun _ _ => Run.blocked, fun _ _ => Run.blocked⟩ ⟨0⟩ "m"
        ⟨[], [], [], [], .binary overlong⟩ overlong bare =
      (some (.error (.trap "m" (.elements "t" (.tableIndex 2 2)))), w') ∧
      Trapped ⟨0⟩ "m" overlong defined w' (.elements "t" (.tableIndex 2 2))) ∧
    w'.store.tables = #[⟨none, #[none, some ⟨0⟩]⟩] := by
  have misfits : (TrapCause.elements "t" (.tableIndex 2 2)).Misfits := trivial
  exact ⟨_, segment_trap_writes rfl misfits rfl, by rfl⟩

/-- An element segment that traps is not refused as a whole: tables can have changed since the
segments before it were applied. -/
theorem not_segment_trap_whole : ¬ ∀ (body : BinaryBody Unit) (e : EnvironmentId)
    (identity : String) (w w₀ w₁ w' : World Unit Unit) (before after : List ElementSegment)
    (segment : ElementSegment) (cause : TrapCause), definitions e body w = (some (.ok ()), w₀) →
    body.elements = before ++ segment :: after →
    segments e identity body.data before w₀ = (some (.ok ()), w₁) → cause.Misfits →
    applyElements e identity segment w₁ = (some (.error (.trap identity cause)), w') →
    w'.store.tables = w₁.store.tables := by
  intro whole
  have same := whole overlong ⟨0⟩ "m" bare defined defined _ [] [] ⟨"t", 1, ["g", "g"]⟩
    (.elements "t" (.tableIndex 2 2)) rfl rfl rfl trivial rfl
  revert same
  decide

end World
end MixedModules
