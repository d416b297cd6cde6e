import Std.Data.HashMap
import MixedModules.Fault

/-! Memories: bytes that grow by whole pages.

Only bytes that were written are kept; every other byte below the size is zero.
Sizes and offsets are naturals, and an access is checked before any byte is
touched, so a failing operation leaves nothing behind. -/
namespace MixedModules

/-- A memory of `pages` pages, with the bytes written so far. -/
structure Memory where
  pages : Nat
  maximum : Option Nat
  written : Std.HashMap Nat UInt8
deriving Inhabited

namespace Memory

def pageSize : Nat := 65536

/-- No memory has more pages than this. -/
def greatestPages : Nat := 65536

/-- A memory of zeros at its minimum size. -/
def new (limits : Limits) : Except TypeFault Memory :=
  let bounded := limits.min ≤ greatestPages && limits.max.all fun max => max ≤ greatestPages
  if limits.isValid && bounded then .ok ⟨limits.min, limits.max, ∅⟩
  else .error (.invalidMemoryLimits limits)

/-- The size in bytes. -/
def size (m : Memory) : Nat := m.pages * pageSize

/-- The bounds now, with the current size as the minimum. -/
def limits (m : Memory) : Limits := ⟨m.pages, m.maximum⟩

/-- The byte at an offset. -/
def byte (m : Memory) (offset : Nat) : UInt8 := m.written.getD offset 0

/-- Adds pages of zeros, and gives the number of pages before. -/
def grow (m : Memory) (delta : Nat) : Except TypeFault (Nat × Memory) :=
  if m.pages + delta ≤ m.maximum.getD greatestPages then
    .ok (m.pages, { m with pages := m.pages + delta })
  else .error (.growMemory m.pages delta)

/-- An access must end within the memory. -/
def check (m : Memory) (offset length : Nat) : Except TypeFault Unit :=
  if offset + length ≤ m.size then .ok () else .error (.memoryBounds length offset m.size)

def read (m : Memory) (offset length : Nat) : Except TypeFault (List UInt8) :=
  (m.check offset length).map fun _ => (List.range length).map fun i => m.byte (offset + i)

/-- Puts bytes one after the other, from `offset` on. -/
def putBytes (written : Std.HashMap Nat UInt8) : Nat → List UInt8 → Std.HashMap Nat UInt8
  | _, [] => written
  | offset, b :: rest => putBytes (written.insert offset b) (offset + 1) rest

def write (m : Memory) (offset : Nat) (bytes : List UInt8) : Except TypeFault Memory :=
  (m.check offset bytes.length).map fun _ => { m with written := putBytes m.written offset bytes }

end Memory

/-- The bytes of a 32-bit number, the lowest first. -/
def littleEndian (n : Int32) : List UInt8 :=
  let word := n.toUInt32
  [word.toUInt8, (word >>> 8).toUInt8, (word >>> 16).toUInt8, (word >>> 24).toUInt8]

/-- The 32-bit number of some bytes, the lowest first. -/
def ofLittleEndian (bytes : List UInt8) : Int32 :=
  let word : UInt32 := bytes.foldr (fun (b : UInt8) (high : UInt32) => high <<< 8 ||| b.toUInt32) 0
  word.toInt32

end MixedModules
