import MixedModules.Expression.Meaning
import MixedModules.Proofs.Execution.Passage
import MixedModules.Proofs.Resource.Memory
import MixedModules.Proofs.Store.Objects

/-! Memories behave as rows of bytes.

Whatever is done to a store, a memory of it answers as the row of bytes that results if the
same is done to a row of zeros. Beside that stands what was written, in order, of which every
byte is the latest. -/
namespace MixedModules

open Memory (pageSize greatestPages)

variable {κ σ : Type}

/-! ## Numbers in memories -/

section Numbers

variable (calls : Calls Code Notes) (w : World Code Notes) (m : MemoryId) (offset : Nat)

/-- An expression that loads a number gives the one that the store has there. -/
theorem run_load : ((Expression.OnMemory.program m (.load offset)).run calls w).1 =
    some ((w.store.loadMemory m offset).map fun n => Outcome.raw (.i32 n)) := by
  change ((Program.bind (Program.operate (.loadMemory m offset)) _).run calls w).1 = _
  rw [Program.run_bind, Program.run_operate, Run.bind_apply, World.change, Operation.perform,
    Operation.reading]
  cases w.store.loadMemory m offset <;> rfl

/-- An expression that stores a number does what the store does. -/
theorem run_store (n : Int32) :
    ((Expression.OnMemory.program m (.store offset n)).run calls w).2.store =
      w.store.after (.storeMemory m offset n) := by
  change ((Program.bind (Program.operate (.storeMemory m offset n)) _).run calls w).2.store = _
  rw [Program.run_bind, Program.run_operate, Run.bind_apply, ← Store.store_change]
  rcases World.change (Operation.storeMemory m offset n).perform w with ⟨_ | _ | _, w'⟩ <;> rfl

end Numbers

/-! ## Rows of bytes -/

namespace Operation

/-- What an operation does to the row of bytes that stands for a memory of at most `most` pages. -/
def onBytes (m : MemoryId) (most : Nat) (row : List UInt8) : Operation κ → List UInt8
  | growMemory m' delta =>
    if m' = m ∧ row.length / pageSize + delta ≤ most then
      row ++ List.replicate (delta * pageSize) 0
    else row
  | writeMemory m' offset bytes =>
    if m' = m ∧ offset + bytes.length ≤ row.length then overwrite row offset bytes else row
  | _ => row

/-- What an operation is to write to a memory. -/
def writes (m : MemoryId) : Operation κ → List (Nat × List UInt8)
  | writeMemory m' offset bytes => if m' = m then [(offset, bytes)] else []
  | _ => []

end Operation

/-- The row of bytes that operations make of a new memory. -/
def bytesAfter (m : MemoryId) (limits : Limits) (os : List (Operation κ)) : List UInt8 :=
  os.foldl (fun row o => o.onBytes m (limits.max.getD greatestPages) row)
    (List.replicate (limits.min * pageSize) 0)

private theorem length_le_onBytes (m : MemoryId) (most : Nat) (row : List UInt8) (o : Operation κ) :
    row.length ≤ (o.onBytes m most row).length := by
  unfold Operation.onBytes
  split
  · split
    · rw [List.length_append]
      exact Nat.le_add_right _ _
    · exact Nat.le_refl _
  · split
    · next inside => exact (length_overwrite inside.2).ge
    · exact Nat.le_refl _
  · exact Nat.le_refl _

private theorem length_le_bytesAfter (m : MemoryId) (limits : Limits) (os os' : List (Operation κ)) :
    (bytesAfter m limits os).length ≤ (bytesAfter m limits (os ++ os')).length := by
  rw [bytesAfter, bytesAfter, List.foldl_append]
  generalize os.foldl _ _ = row
  induction os' generalizing row with
  | nil => exact Nat.le_refl _
  | cons o rest ih => exact (length_le_onBytes ..).trans (ih _)

/-- What was written to one position last, by entries of which the latest comes first. -/
def latest : List (Nat × List UInt8) → Nat → UInt8
  | [], _ => 0
  | (offset, bytes) :: older, position =>
    if offset ≤ position ∧ position < offset + bytes.length then bytes.getD (position - offset) 0
    else latest older position

namespace Store

/-- What an operation writes to a memory. One that fails writes nothing. -/
def wrote (s : Store κ) (m : MemoryId) (o : Operation κ) : List (Nat × List UInt8) :=
  match o.perform s with
  | .ok _ => o.writes m
  | .error _ => []

/-- What operations write to a memory, the latest first. -/
def journal (s : Store κ) (m : MemoryId) : List (Operation κ) → List (Nat × List UInt8)
  | [] => []
  | o :: os => (s.after o).journal m os ++ s.wrote m o

variable {s s' : Store κ} {m : MemoryId} {limits : Limits} {maximum : Option Nat}
  {row : List UInt8} {entries : List (Nat × List UInt8)}

/-- A memory that answers as a row of bytes. -/
structure ActsAs (s : Store κ) (m : MemoryId) (maximum : Option Nat) (row : List UInt8) :
    Prop where
  /-- The row consists of whole pages, as many as the memory has, and no more than it may have. -/
  size : ∃ pages, (s.memory m).map Memory.limits = .ok ⟨pages, maximum⟩ ∧
    row.length = pages * pageSize ∧ pages ≤ maximum.getD greatestPages ∧ pages ≤ greatestPages
  read : ∀ offset length, s.readMemory m offset length =
    if offset + length ≤ row.length then .ok ((row.drop offset).take length)
    else .error (.type (.memoryBounds length offset row.length))
  load : ∀ offset, s.loadMemory m offset =
    if offset + 4 ≤ row.length then .ok (ofLittleEndian ((row.drop offset).take 4))
    else .error (.type (.memoryBounds 4 offset row.length))
  write : ∀ offset bytes, if offset + bytes.length ≤ row.length
    then ∃ s', writeMemory m offset bytes s = .ok ((), s')
    else writeMemory m offset bytes s = .error (.type (.memoryBounds bytes.length offset row.length))
  grow : ∀ delta, if row.length / pageSize + delta ≤ maximum.getD greatestPages
    then ∃ s', growMemory m delta s = .ok (row.length / pageSize, s')
    else growMemory m delta s = .error (.type (.growMemory (row.length / pageSize) delta))
  /-- The end of an access that succeeds is a 64-bit number. -/
  ends : ∀ offset length : UInt64, offset.toNat + length.toNat ≤ row.length →
    (offset + length).toNat = offset.toNat + length.toNat
  /-- So is the size that a memory may grow to, and its pages are a 32-bit number. -/
  sizes : ∀ delta : UInt32, row.length / pageSize + delta.toNat ≤ maximum.getD greatestPages →
    (UInt32.ofNat (row.length / pageSize) + delta).toNat = row.length / pageSize + delta.toNat ∧
    (row.length / pageSize + delta.toNat) * pageSize < 2 ^ 64

/-- A memory with given bytes. -/
def Holds (s : Store κ) (m : MemoryId) (maximum : Option Nat) (row : List UInt8) : Prop :=
  ∃ memory, s.memory m = .ok memory ∧ memory.contents = row ∧ memory.maximum = maximum ∧
    memory.Tidy

theorem holds_new (made : newMemory limits s = .ok (m, s')) :
    s'.Holds m limits.max (List.replicate (limits.min * pageSize) 0) := by
  unfold newMemory at made
  cases new : Memory.new limits with
  | error f =>
    rw [new] at made
    cases made
  | ok memory =>
    rw [new] at made
    cases made
    obtain ⟨contents, _, maximum, tidy⟩ := Memory.contents_new new
    exact ⟨memory, memory_eq_ok.mpr (by simp), contents, maximum, tidy⟩

/-- The pages of a row that a memory holds. -/
private theorem pages_of_contents (memory : Memory) :
    memory.contents.length / pageSize = memory.pages := by
  rw [Memory.length_contents, Memory.size]
  exact Nat.mul_div_cancel _ (by decide)

/-- What becomes of a memory that is to grow becomes of its row. -/
private theorem contents_grown {memory : Memory} (tidy : memory.Tidy) (delta : Nat) :
    let grown := attempted memory ((memory.grow delta).map Prod.snd)
    grown.contents = (if memory.contents.length / pageSize + delta ≤
        memory.maximum.getD greatestPages
      then memory.contents ++ List.replicate (delta * pageSize) 0 else memory.contents) ∧
    grown.maximum = memory.maximum ∧ grown.Tidy := by
  rw [pages_of_contents]
  rcases memory.grow_cases delta with ⟨⟨grown, ran⟩, room⟩ | ⟨ran, full⟩
  · obtain ⟨_, _, contents, _, maximum, tidy⟩ := Memory.contents_grow tidy ran
    rw [ran, if_pos room]
    exact ⟨contents, maximum, tidy⟩
  · rw [ran, if_neg full]
    exact ⟨rfl, rfl, tidy⟩

/-- What becomes of a memory that is to be written to becomes of its row. -/
private theorem contents_written {memory : Memory} (tidy : memory.Tidy) (offset : Nat)
    (bytes : List UInt8) :
    let changed := attempted memory (memory.write offset bytes)
    changed.contents = (if offset + bytes.length ≤ memory.contents.length
      then overwrite memory.contents offset bytes else memory.contents) ∧
    changed.maximum = memory.maximum ∧ changed.Tidy := by
  rcases memory.write_cases offset bytes with ⟨⟨changed, ran⟩, inside⟩ | ⟨ran, outside⟩
  · obtain ⟨_, contents, _, maximum, kept⟩ := Memory.contents_write ran
    rw [ran, if_pos inside]
    exact ⟨contents, maximum, kept tidy⟩
  · rw [ran, if_neg outside]
    exact ⟨rfl, rfl, tidy⟩

/-- What an operation does to the row of a memory it does to the memory. -/
theorem Holds.after (holds : s.Holds m maximum row) (o : Operation κ) :
    (s.after o).Holds m maximum (o.onBytes m (maximum.getD greatestPages) row) := by
  obtain ⟨memory, held, rfl, rfl, tidy⟩ := holds
  rw [memory_eq_ok] at held
  have memories := (operates s o).memories
  cases o with
  | newMemory limits =>
    rw [Operation.onMemories] at memories
    exact ⟨memory, memory_eq_ok.mpr (memories ▸ getElem?_attempted_push held _), rfl, rfl, tidy⟩
  | growMemory m' delta =>
    rw [Operation.onMemories] at memories
    refine ⟨_, memory_eq_ok.mpr (memories ▸ getElem?_modified memoryId_eq_iff held _), ?_⟩
    rw [Operation.onBytes]
    by_cases same : m' = m
    · simpa only [same, true_and, if_true] using contents_grown tidy delta
    · simpa only [same, false_and, if_false, true_and] using tidy
  | writeMemory m' offset bytes =>
    rw [Operation.onMemories] at memories
    refine ⟨_, memory_eq_ok.mpr (memories ▸ getElem?_modified memoryId_eq_iff held _), ?_⟩
    rw [Operation.onBytes]
    by_cases same : m' = m
    · simpa only [same, true_and, if_true] using contents_written tidy offset bytes
    · simpa only [same, false_and, if_false, true_and] using tidy
  | _ => exact ⟨memory, memory_eq_ok.mpr (memories ▸ held), rfl, rfl, tidy⟩

theorem Holds.afterAll (holds : s.Holds m maximum row) (os : List (Operation κ)) :
    (s.afterAll os).Holds m maximum
      (os.foldl (fun row o => o.onBytes m (maximum.getD greatestPages) row) row) := by
  induction os generalizing s row with
  | nil => exact holds
  | cons o rest ih => exact ih (holds.after o)

/-! ## Answers -/

section Answers

variable {memory : Memory}

private theorem readMemory_held (held : s.memory m = .ok memory) (offset length : Nat) :
    s.readMemory m offset length = (memory.read offset length).mapError .type := by
  unfold readMemory
  rw [held]
  simp only [bind, Except.bind]
  cases memory.read offset length <;> rfl

private theorem writeMemory_held (held : s.memory m = .ok memory) (offset : Nat)
    (bytes : List UInt8) : writeMemory m offset bytes s =
      ((memory.write offset bytes).map fun changed =>
        ((), { s with memories := s.memories.setIfInBounds m.index changed })).mapError .type := by
  unfold writeMemory
  rw [held]
  simp only [bind, Except.bind]
  cases memory.write offset bytes <;> rfl

private theorem growMemory_held (held : s.memory m = .ok memory) (delta : Nat) :
    growMemory m delta s = ((memory.grow delta).map fun grown =>
      (grown.1, { s with memories := s.memories.setIfInBounds m.index grown.2 })).mapError .type := by
  unfold growMemory
  rw [held]
  simp only [bind, Except.bind]
  cases memory.grow delta <;> rfl

variable (holds : s.Holds m maximum row)

include holds

theorem Holds.readMemory_eq (offset length : Nat) : s.readMemory m offset length =
    if offset + length ≤ row.length then .ok ((row.drop offset).take length)
    else .error (.type (.memoryBounds length offset row.length)) := by
  obtain ⟨memory, held, rfl, rfl, tidy⟩ := holds
  rw [readMemory_held held, Memory.read_eq]
  split <;> rfl

theorem Holds.loadMemory_eq (offset : Nat) : s.loadMemory m offset =
    if offset + 4 ≤ row.length then .ok (ofLittleEndian ((row.drop offset).take 4))
    else .error (.type (.memoryBounds 4 offset row.length)) := by
  rw [loadMemory, holds.readMemory_eq]
  split <;> rfl

/-- All numbers that an access needs are far from the greatest ones. -/
private theorem Holds.small : row.length / pageSize ≤ greatestPages ∧
    row.length = row.length / pageSize * pageSize := by
  obtain ⟨memory, held, rfl, rfl, tidy⟩ := holds
  rw [pages_of_contents, Memory.length_contents, Memory.size]
  exact ⟨tidy.within.trans tidy.most, rfl⟩

theorem Holds.actsAs : s.ActsAs m maximum row := by
  obtain ⟨few, whole⟩ := holds.small
  have holds' := holds
  obtain ⟨memory, held, rfl, rfl, tidy⟩ := holds
  rw [pages_of_contents] at few whole
  refine ⟨⟨memory.pages, ?_, whole, tidy.within, few⟩, holds'.readMemory_eq, holds'.loadMemory_eq,
    fun offset bytes => ?_, fun delta => ?_, fun offset length inside => ?_, fun delta room => ?_⟩
  · rw [held]
    rfl
  · rw [writeMemory_held held]
    rcases memory.write_cases offset bytes with ⟨⟨changed, ran⟩, inside⟩ | ⟨ran, outside⟩
    · rw [if_pos inside, ran]
      exact ⟨_, rfl⟩
    · rw [if_neg outside, ran]
      rfl
  · rw [growMemory_held held, pages_of_contents]
    rcases memory.grow_cases delta with ⟨⟨grown, ran⟩, room⟩ | ⟨ran, full⟩
    · rw [if_pos room, ran]
      exact ⟨_, rfl⟩
    · rw [if_neg full, ran]
      rfl
  · rw [UInt64.toNat_add]
    unfold greatestPages at few
    unfold pageSize at whole
    omega
  · have most := tidy.most
    rw [pages_of_contents] at room ⊢
    unfold greatestPages at few room most
    unfold pageSize
    rw [UInt32.toNat_add, UInt32.toNat_ofNat']
    omega

end Answers

/-! ## What was written last -/

/-- Entries that lie elsewhere do not matter for a position. -/
theorem latest_of_outside {position : Nat} {newer : List (Nat × List UInt8)}
    (outside : ∀ e ∈ newer, position < e.1 ∨ e.1 + e.2.length ≤ position) :
    latest (newer ++ entries) position = latest entries position := by
  induction newer with
  | nil => rfl
  | cons e rest ih =>
    have here := outside e List.mem_cons_self
    rw [List.cons_append, latest, if_neg (by omega)]
    exact ih fun other member => outside other (List.mem_cons_of_mem e member)

/-- The row has the latest byte at each position, if it had before. -/
private theorem Holds.latest_after (holds : s.Holds m maximum row)
    (known : ∀ position, row.getD position 0 = latest entries position) (o : Operation κ)
    (position : Nat) :
    (o.onBytes m (maximum.getD greatestPages) row).getD position 0 =
      latest (s.wrote m o ++ entries) position := by
  have nothing (none : o.writes m = []) : s.wrote m o ++ entries = entries := by
    rw [wrote, none]
    split <;> rfl
  cases o with
  | growMemory m' delta =>
    rw [nothing rfl, ← known, Operation.onBytes]
    split
    · simp only [List.getD_eq_getElem?_getD, List.getElem?_append, List.getElem?_replicate]
      split
      · rfl
      · next beyond =>
        rw [List.getElem?_eq_none (by omega)]
        split <;> rfl
    · rfl
  | writeMemory m' offset bytes =>
    by_cases same : m' = m
    swap
    · rw [nothing (if_neg same), ← known, Operation.onBytes, if_neg fun both => same both.1]
    subst same
    have answer := holds.actsAs.write offset bytes
    rw [Operation.onBytes, wrote, Operation.perform]
    by_cases inside : offset + bytes.length ≤ row.length
    · rw [if_pos inside] at answer
      obtain ⟨s', ran⟩ := answer
      rw [if_pos ⟨rfl, inside⟩, ran]
      simp only [Operation.writes, if_true, List.singleton_append, latest]
      rw [List.getD_eq_getElem?_getD, getElem?_overwrite inside]
      split
      · exact (List.getD_eq_getElem?_getD ..).symm
      · rw [← List.getD_eq_getElem?_getD, known]
    · rw [if_neg inside] at answer
      rw [if_neg fun both => inside both.2, answer, known]
      rfl
  | _ =>
    rw [nothing rfl]
    exact known position

/-- Each byte of a row is the latest that was written there. -/
theorem Holds.latest_afterAll (holds : s.Holds m maximum row)
    (known : ∀ position, row.getD position 0 = latest entries position)
    (os : List (Operation κ)) (position : Nat) :
    (os.foldl (fun row o => o.onBytes m (maximum.getD greatestPages) row) row).getD position 0 =
      latest (s.journal m os ++ entries) position := by
  induction os generalizing s row entries with
  | nil => exact known position
  | cons o rest ih =>
    rw [List.foldl_cons, journal, List.append_assoc]
    exact ih (holds.after o) (holds.latest_after known o)

theorem journal_append (s : Store κ) (m : MemoryId) (os os' : List (Operation κ)) :
    s.journal m (os ++ os') = (s.afterAll os).journal m os' ++ s.journal m os := by
  induction os generalizing s with
  | nil => rw [List.nil_append, journal, List.append_nil]; rfl
  | cons o rest ih =>
    rw [List.cons_append, journal, ih, journal, List.append_assoc]
    rfl

/-! ## All at once -/

/-- A part of a row, byte by byte. -/
private theorem take_drop_eq {offset length : Nat} {byte : Nat → UInt8}
    (inside : offset + length ≤ row.length) (known : ∀ position, row.getD position 0 = byte position) :
    (row.drop offset).take length = (List.range length).map fun i => byte (offset + i) := by
  refine List.ext_getElem? fun i => ?_
  rw [List.getElem?_take, List.getElem?_drop, List.getElem?_map]
  by_cases within : i < length
  · rw [if_pos within, List.getElem?_range within, Option.map_some, ← known,
      List.getD_eq_getElem?_getD, List.getElem?_eq_getElem (by omega), Option.getD_some]
  · rw [if_neg within, List.getElem?_eq_none (by simpa using within), Option.map_none]

/-- Operations on a new memory leave what they wrote last. -/
structure Remembers (s : Store κ) (m : MemoryId) (limits : Limits) (os : List (Operation κ)) :
    Prop where
  /-- Every byte is the latest that was written in its place. -/
  byte : ∀ position < (bytesAfter m limits os).length,
    (bytesAfter m limits os)[position]? = some (latest (s.journal m os) position)
  /-- A number that is loaded is the two's complement of what the latest four bytes spell. -/
  load : ∀ offset n, (s.afterAll os).loadMemory m offset = .ok n → n.toInt =
    (unsigned ((List.range 4).map fun i => latest (s.journal m os) (offset + i)) : Int).bmod (2 ^ 32)
  /-- It is the number that was stored there if nothing was written since that overlaps. -/
  stored : ∀ before since offset n, os = before ++ .storeMemory m offset n :: since →
    offset + 4 ≤ (bytesAfter m limits before).length →
    (∀ e ∈ (s.afterAll (before ++ [.storeMemory m offset n])).journal m since,
      e.1 + e.2.length ≤ offset ∨ offset + 4 ≤ e.1) →
    (s.afterAll os).loadMemory m offset = .ok n
  /-- An operation that fails leaves the store, and the bytes, as they are. -/
  failed : ∀ o e, o.perform (s.afterAll os) = .error e →
    s.afterAll (os ++ [o]) = s.afterAll os ∧
      bytesAfter m limits (os ++ [o]) = bytesAfter m limits os

/-- Bytes change with the memory only. -/
private theorem bytesAfter_of_same (holds : ∀ os : List (Operation κ),
      (s.afterAll os).Holds m limits.max (bytesAfter m limits os))
    {os os' : List (Operation κ)} (same : s.afterAll os = s.afterAll os') :
    bytesAfter m limits os = bytesAfter m limits os' := by
  obtain ⟨memory, held, contents, -⟩ := holds os
  obtain ⟨memory', held', contents', -⟩ := holds os'
  rw [same, held'] at held
  cases held
  exact contents.symm.trans contents'

section New

variable (made : newMemory limits s = .ok (m, s'))

include made

private theorem holds_bytesAfter (os : List (Operation κ)) :
    (s'.afterAll os).Holds m limits.max (bytesAfter m limits os) :=
  (holds_new made).afterAll os

/-- Nothing was written to a new memory, and so everything is as it was written last. -/
private theorem getD_bytesAfter (os : List (Operation κ)) (position : Nat) :
    (bytesAfter m limits os).getD position 0 = latest (s'.journal m os) position := by
  have blank (position : Nat) :
      (List.replicate (limits.min * pageSize) 0).getD position 0 = latest [] position := by
    rw [List.getD_eq_getElem?_getD, List.getElem?_replicate]
    split <;> rfl
  have last := (holds_new made).latest_afterAll blank os position
  rwa [List.append_nil] at last

/-- The latest bytes are those of a number after which nothing was written in its place. -/
private theorem latest_stored {before since : List (Operation κ)} {offset : Nat} {n : Int32}
    (inside : offset + 4 ≤ (bytesAfter m limits before).length)
    (elsewhere : ∀ e ∈ (s'.afterAll (before ++ [.storeMemory m offset n])).journal m since,
      e.1 + e.2.length ≤ offset ∨ offset + 4 ≤ e.1) {i : Nat} (within : i < 4) :
    latest (s'.journal m (before ++ .storeMemory m offset n :: since)) (offset + i) =
      (littleEndian n).getD i 0 := by
  have answer := (holds_bytesAfter made before).actsAs.write offset (littleEndian n)
  rw [if_pos (show offset + (littleEndian n).length ≤ _ from inside)] at answer
  obtain ⟨_, ran⟩ := answer
  have wrote : (s'.afterAll before).wrote m (.storeMemory m offset n) =
      [(offset, littleEndian n)] := by
    rw [Store.wrote, Operation.storeMemory, Operation.perform, ran]
    exact if_pos rfl
  have four : (littleEndian n).length = 4 := rfl
  rw [afterAll_append] at elsewhere
  rw [journal_append, journal, wrote, List.append_assoc, latest_of_outside, List.singleton_append,
    latest, if_pos (by omega), Nat.add_sub_cancel_left]
  intro e member
  have place := elsewhere e member
  omega

/-- A new memory acts as a row of zeros does, whatever is done to the store. -/
theorem acts_as_bytes (os : List (Operation κ)) :
    (s'.afterAll os).ActsAs m limits.max (bytesAfter m limits os) ∧ s'.Remembers m limits os := by
  have holds := holds_bytesAfter made
  have known := getD_bytesAfter made
  refine ⟨(holds os).actsAs, fun position inside => ?_, fun offset n loaded => ?_, ?_,
    fun o e failed => ?_⟩
  · rw [← known, List.getD_eq_getElem?_getD, List.getElem?_eq_getElem inside, Option.getD_some]
  · rw [(holds os).loadMemory_eq] at loaded
    split at loaded
    · next inside =>
      cases loaded
      rw [toInt_ofLittleEndian (List.length_take_le ..), take_drop_eq inside (known os)]
    · cases loaded
  · rintro before since offset n rfl inside elsewhere
    have still := inside.trans (length_le_bytesAfter m limits before (.storeMemory m offset n :: since))
    have bytes : (List.range 4).map (fun i => latest (s'.journal m _) (offset + i)) = littleEndian n :=
      List.map_congr_left fun i member =>
        latest_stored made inside elsewhere (List.mem_range.mp member)
    rw [(holds _).loadMemory_eq, if_pos still, take_drop_eq still (known _), bytes,
      ofLittleEndian_littleEndian]
  · have same : s'.afterAll (os ++ [o]) = s'.afterAll os := by
      rw [afterAll_append]
      exact after_of_error failed
    exact ⟨same, bytesAfter_of_same holds same⟩

end New

/-- A memory of one page that may have two: a number is stored, the memory grows, a write over its
end fails, and the number is still there. -/
theorem acts_as_bytes_page : ∃ s : Store Unit, newMemory ⟨1, some 2⟩ .empty = .ok (⟨0⟩, s) ∧
    (s.afterAll [.storeMemory ⟨0⟩ 16 (-7), .growMemory ⟨0⟩ 1,
      .writeMemory ⟨0⟩ 131071 [1, 2]]).loadMemory ⟨0⟩ 16 = .ok (-7) := by
  have made : newMemory ⟨1, some 2⟩ (.empty : Store Unit) = .ok (⟨0⟩, _) := rfl
  refine ⟨_, made, (acts_as_bytes made _).2.stored [] _ 16 (-7) rfl ?_ nofun⟩
  rw [bytesAfter, List.foldl_nil, List.length_replicate]
  decide

end Store
end MixedModules
