import Mathlib.Data.Nat.Digits.Defs
import MixedModules.Resource.Memory

/-! Memories as rows of bytes.

A memory keeps only the bytes that were written to it, and what it stands for is the row of all
its bytes, zeros included. An access succeeds where it lies within the row. What is read is a
part of the row, what is written replaces a part of it, and a memory that grows gets zeros at
its end, since nothing is ever written beyond it. -/
namespace MixedModules

section Rows

variable {row bytes : List UInt8} {offset position : Nat}

/-- A row with other bytes in the place of those that begin at `offset`. -/
def overwrite (row : List UInt8) (offset : Nat) (bytes : List UInt8) : List UInt8 :=
  row.take offset ++ bytes ++ row.drop (offset + bytes.length)

theorem length_overwrite (inside : offset + bytes.length ≤ row.length) :
    (overwrite row offset bytes).length = row.length := by
  simp only [overwrite, List.length_append, List.length_take, List.length_drop]
  omega

/-- The new bytes are where they were put, and all others are as before. -/
theorem getElem?_overwrite (inside : offset + bytes.length ≤ row.length) (position : Nat) :
    (overwrite row offset bytes)[position]? =
      if offset ≤ position ∧ position < offset + bytes.length then bytes[position - offset]?
      else row[position]? := by
  have place : (row.take offset).length = offset := by
    rw [List.length_take]
    omega
  rw [overwrite, List.append_assoc, List.getElem?_append, place, List.getElem?_append,
    List.getElem?_take, List.getElem?_drop]
  by_cases before : position < offset
  · rw [if_pos before, if_pos before, if_neg (by omega)]
  rw [if_neg before]
  by_cases within : position - offset < bytes.length
  · rw [if_pos within, if_pos (by omega)]
  · rw [if_neg within, if_neg (by omega)]
    congr 1
    omega

end Rows

/-! ## Words -/

section Words

/-- The number that bytes are the digits of, the lowest first. -/
def unsigned (bytes : List UInt8) : Nat := Nat.ofDigits 256 (bytes.map UInt8.toNat)

@[simp] theorem unsigned_nil : unsigned [] = 0 := rfl

@[simp] theorem unsigned_cons (b : UInt8) (bytes : List UInt8) :
    unsigned (b :: bytes) = b.toNat + 256 * unsigned bytes := by
  rw [unsigned, List.map_cons, Nat.ofDigits_cons, ← unsigned]

/-- One more byte below a word that has room for it. -/
private theorem toNat_below {high : UInt32} (room : high.toNat < 2 ^ 24) (b : UInt8) :
    (high <<< 8 ||| b.toUInt32).toNat = b.toNat + 256 * high.toNat := by
  have digit : b.toNat < 2 ^ 8 := b.toNat_lt
  have shifted : (high <<< 8).toNat = high.toNat <<< 8 := by
    rw [UInt32.toNat_shiftLeft, Nat.shiftLeft_eq, Nat.shiftLeft_eq]
    exact Nat.mod_eq_of_lt (by simp; omega)
  rw [UInt32.toNat_or, shifted, UInt8.toNat_toUInt32, ← Nat.shiftLeft_add_eq_or_of_lt digit,
    Nat.shiftLeft_eq]
  omega

theorem unsigned_lt (bytes : List UInt8) : unsigned bytes < 256 ^ bytes.length := by
  induction bytes with
  | nil => simp
  | cons b rest ih =>
    have digit : b.toNat < 2 ^ 8 := b.toNat_lt
    rw [unsigned_cons, List.length_cons, Nat.pow_succ]
    omega

private theorem toNat_spelled {bytes : List UInt8} (short : bytes.length ≤ 4) :
    (bytes.foldr (fun (b : UInt8) (high : UInt32) => high <<< 8 ||| b.toUInt32) 0).toNat =
      unsigned bytes := by
  induction bytes with
  | nil => rfl
  | cons b rest ih =>
    rw [List.length_cons] at short
    have spelled := ih (by omega)
    have room : unsigned rest < 256 ^ 3 :=
      (unsigned_lt rest).trans_le (Nat.pow_le_pow_right (by decide) (by omega))
    rw [List.foldr_cons, toNat_below (by omega), spelled, unsigned_cons]

/-- A word is the two's complement of the number that its bytes spell. -/
theorem toInt_ofLittleEndian {bytes : List UInt8} (short : bytes.length ≤ 4) :
    (ofLittleEndian bytes).toInt = (unsigned bytes : Int).bmod (2 ^ 32) := by
  rw [← toNat_spelled short]
  exact BitVec.toInt_eq_toNat_bmod _

theorem unsigned_littleEndian (n : Int32) : unsigned (littleEndian n) = n.toUInt32.toNat := by
  have word : n.toUInt32.toNat < 2 ^ 32 := n.toUInt32.toNat_lt
  simp [littleEndian, Nat.shiftRight_eq_div_pow]
  omega

theorem ofLittleEndian_littleEndian (n : Int32) : ofLittleEndian (littleEndian n) = n := by
  have spelled : (ofLittleEndian (littleEndian n)).toUInt32 = n.toUInt32 :=
    UInt32.toNat_inj.mp ((toNat_spelled (by simp [littleEndian])).trans (unsigned_littleEndian n))
  rw [← Int32.toInt32_toUInt32 (ofLittleEndian _), spelled, Int32.toInt32_toUInt32]

end Words

namespace Memory

variable {m m' : Memory} {offset length delta before position : Nat} {bytes row : List UInt8}
  {limits : Limits}

/-- All bytes of a memory, in order. -/
def contents (m : Memory) : List UInt8 := (List.range m.size).map m.byte

/-- A memory within its maximum, which is no more than a memory may have. -/
structure Bounded (m : Memory) : Prop where
  within : m.pages ≤ m.maximum.getD greatestPages
  most : m.maximum.getD greatestPages ≤ greatestPages

/-- A memory within its bounds, with nothing beyond its end. -/
structure Tidy (m : Memory) : Prop extends Bounded m where
  clear : ∀ position, m.size ≤ position → m.byte position = 0

@[simp] theorem length_contents (m : Memory) : m.contents.length = m.size := by
  simp [contents]

theorem getElem?_contents (m : Memory) (position : Nat) :
    m.contents[position]? = if position < m.size then some (m.byte position) else none := by
  rw [contents, List.getElem?_map]
  by_cases inside : position < m.size <;> simp [inside]

/-! ## Operations -/

theorem read_eq (m : Memory) (offset length : Nat) : m.read offset length =
    if offset + length ≤ m.contents.length then .ok ((m.contents.drop offset).take length)
    else .error (.memoryBounds length offset m.contents.length) := by
  rw [length_contents]
  unfold read check
  by_cases inside : offset + length ≤ m.size
  · rw [if_pos inside, if_pos inside]
    refine congrArg Except.ok (List.ext_getElem? fun i => ?_)
    rw [List.getElem?_take, List.getElem?_drop, getElem?_contents, List.getElem?_map]
    by_cases within : i < length
    · rw [if_pos within, if_pos (by omega), List.getElem?_range within, Option.map_some]
    · rw [if_neg within, List.getElem?_eq_none (by simpa using within), Option.map_none]
  · rw [if_neg inside, if_neg inside]
    rfl

private theorem getD_putBytes (written : Std.HashMap Nat UInt8) (offset : Nat) (bytes : List UInt8)
    (position : Nat) : (putBytes written offset bytes).getD position 0 =
      if offset ≤ position ∧ position < offset + bytes.length then bytes.getD (position - offset) 0
      else written.getD position 0 := by
  induction bytes generalizing written offset with
  | nil => rw [putBytes, if_neg (by simp)]
  | cons b rest ih =>
    rw [putBytes, ih, Std.HashMap.getD_insert, List.length_cons]
    by_cases here : offset = position
    · subst here
      simp
    by_cases within : offset + 1 ≤ position ∧ position < offset + 1 + rest.length
    · have next : position - offset = position - (offset + 1) + 1 := by omega
      rw [if_pos within, if_pos (by omega), next, List.getD_cons_succ]
    · rw [if_neg within, if_neg (by simpa using here), if_neg (by omega)]

/-- What is written is in its place. -/
theorem contents_write (ran : m.write offset bytes = .ok m') :
    offset + bytes.length ≤ m.contents.length ∧ m'.contents = overwrite m.contents offset bytes ∧
      m'.pages = m.pages ∧ m'.maximum = m.maximum ∧ (m.Tidy → m'.Tidy) := by
  unfold write check at ran
  split at ran
  swap
  · cases ran
  next inside =>
  cases ran
  rw [length_contents]
  refine ⟨inside, List.ext_getElem? fun position => ?_, rfl, rfl, fun tidy =>
    ⟨⟨tidy.within, tidy.most⟩, fun position beyond => ?_⟩⟩
  · rw [getElem?_overwrite (by simpa using inside), getElem?_contents, getElem?_contents, byte,
      getD_putBytes]
    change (if position < m.size then _ else _) = _
    by_cases within : offset ≤ position ∧ position < offset + bytes.length
    · rw [if_pos within, if_pos within, if_pos (by omega), List.getD_eq_getElem?_getD,
        List.getElem?_eq_getElem (by omega), Option.getD_some]
    · rw [if_neg within, if_neg within, byte]
  · have place : m.size ≤ position := beyond
    rw [byte, getD_putBytes, if_neg (by omega)]
    exact tidy.clear position place

/-- A write succeeds where it ends within the row, and names the row's size where it does not. -/
theorem write_cases (m : Memory) (offset : Nat) (bytes : List UInt8) :
    (∃ m', m.write offset bytes = .ok m') ∧ offset + bytes.length ≤ m.contents.length ∨
      m.write offset bytes = .error (.memoryBounds bytes.length offset m.contents.length) ∧
        ¬ offset + bytes.length ≤ m.contents.length := by
  rw [length_contents]
  unfold write check
  split <;> simp_all [Except.map]

/-- A memory grows within its bound, and names its pages where it does not. -/
theorem grow_cases (m : Memory) (delta : Nat) :
    (∃ m', m.grow delta = .ok (m.pages, m')) ∧ m.pages + delta ≤ m.maximum.getD greatestPages ∨
      m.grow delta = .error (.growMemory m.pages delta) ∧
        ¬ m.pages + delta ≤ m.maximum.getD greatestPages := by
  unfold grow
  split <;> simp_all

/-- A memory that grows has zeros where there was nothing. -/
theorem contents_grow (tidy : m.Tidy) (ran : m.grow delta = .ok (before, m')) :
    before = m.pages ∧ m.pages + delta ≤ m.maximum.getD greatestPages ∧
      m'.contents = m.contents ++ List.replicate (delta * pageSize) 0 ∧
      m'.pages = m.pages + delta ∧ m'.maximum = m.maximum ∧ m'.Tidy := by
  unfold grow at ran
  split at ran
  swap
  · cases ran
  next room =>
  cases ran
  have larger : (m.pages + delta) * pageSize = m.size + delta * pageSize := by
    rw [Nat.add_mul, size]
  refine ⟨rfl, room, List.ext_getElem? fun position => ?_, rfl, rfl,
    ⟨⟨room, tidy.most⟩, fun position beyond => tidy.clear position ?_⟩⟩
  · rw [List.getElem?_append, length_contents, getElem?_contents, getElem?_contents,
      List.getElem?_replicate, size, byte]
    change (if position < (m.pages + delta) * pageSize then some (m.byte position) else none) = _
    rw [larger]
    by_cases old : position < m.size
    · rw [if_pos old, if_pos old, if_pos (by omega)]
    · rw [if_neg old, tidy.clear position (by omega)]
      congr 1
      apply propext
      omega
  · have : (m.pages + delta) * pageSize ≤ position := beyond
    omega

theorem contents_new (made : new limits = .ok m) :
    m.contents = List.replicate (limits.min * pageSize) 0 ∧ m.pages = limits.min ∧
      m.maximum = limits.max ∧ m.Tidy := by
  unfold new at made
  simp only at made
  split at made
  swap
  · cases made
  next fits =>
  cases made
  simp only [Bool.and_eq_true, decide_eq_true_eq] at fits
  obtain ⟨valid, fits, most⟩ := fits
  have nothing (position : Nat) :
      (⟨limits.min, limits.max, ∅⟩ : Memory).byte position = 0 := by
    simp [byte]
  refine ⟨List.ext_getElem? fun position => ?_, rfl, rfl, ⟨?_, ?_⟩, fun position _ => nothing position⟩
  · rw [getElem?_contents, List.getElem?_replicate, nothing]
    rfl
  · unfold Limits.isValid at valid
    cases bound : limits.max with
    | none => simpa [bound] using fits
    | some max => simpa [bound] using valid
  · cases bound : limits.max with
    | none => simp
    | some max => simpa [bound] using most

end Memory
end MixedModules
