import HartScope.Access
import HartScope.Memory.Cells
import HartScope.Memory.LittleEndian

/-!
RAM: `size` bytes from a physical base address on.  `byte` is the semantic model; every operation
succeeds on the same condition, that its whole range lies inside, and a refused one has no result.
-/

namespace HartScope

structure Memory where
  base : UInt64
  size : UInt64
  cells : Cells
deriving DecidableEq, Repr

namespace Memory

def filled (base size : UInt64) (value : UInt8) : Memory :=
  ⟨base, size, .uniform value⟩

def new (base size : UInt64) : Memory :=
  filled base size 0

def stop (memory : Memory) : UInt64 :=
  memory.base + memory.size

/-- Levels of a tree with a cell for every offset below the size. -/
def levels (memory : Memory) : Nat :=
  memory.size.toNat.log2 + 1

/-- The byte at an offset from the base. -/
def byte (memory : Memory) (offset : Nat) : UInt8 :=
  memory.cells.get memory.levels offset

/-- Offset of an address range that lies inside. -/
def offset? (memory : Memory) (address : UInt64) (length : Nat) : Option Nat :=
  if memory.base ≤ address ∧ address.toNat - memory.base.toNat + length ≤ memory.size.toNat then
    some (address.toNat - memory.base.toNat)
  else none

def contains (memory : Memory) (address : UInt64) (length : Nat) : Bool :=
  (memory.offset? address length).isSome

def slice? (memory : Memory) (address : UInt64) (length : Nat) : Option (List UInt8) :=
  (memory.offset? address length).map fun offset =>
    memory.cells.slice memory.levels offset length

def load? (memory : Memory) (address : UInt64) (bytes : List UInt8) : Option Memory :=
  (memory.offset? address bytes.length).map fun offset =>
    { memory with cells := memory.cells.store memory.levels offset bytes }

def fillZero? (memory : Memory) (address : UInt64) (length : Nat) : Option Memory :=
  (memory.offset? address length).map fun offset =>
    { memory with cells := memory.cells.fill memory.levels offset (offset + length) 0 }

def read? (memory : Memory) (address : UInt64) (width : Width) : Option UInt64 :=
  (memory.slice? address width.bytes).map fun bytes => UInt64.ofNat (LittleEndian.toNat bytes)

def write? (memory : Memory) (address : UInt64) (width : Width) (value : UInt64) :
    Option Memory :=
  memory.load? address (LittleEndian.ofNat width.bytes value.toNat)

theorem size_lt_capacity (memory : Memory) :
    memory.size.toNat < Cells.capacity memory.levels := by
  rw [Cells.capacity, Nat.one_shiftLeft]
  exact Nat.lt_log2_self

theorem offset?_bound {memory : Memory} {address : UInt64} {length offset : Nat}
    (found : memory.offset? address length = some offset) :
    memory.base ≤ address ∧ offset = address.toNat - memory.base.toNat ∧
      offset + length ≤ memory.size.toNat := by
  unfold offset? at found
  split at found
  · rename_i inside
    cases found
    exact ⟨inside.1, rfl, inside.2⟩
  · contradiction

theorem load?_byte {memory after : Memory} {address : UInt64} {bytes : List UInt8} {offset : Nat}
    (loaded : memory.load? address bytes = some after)
    (found : memory.offset? address bytes.length = some offset) {i : Nat}
    (bound : i < memory.size.toNat) :
    after.byte i =
      if offset ≤ i ∧ i < offset + bytes.length then bytes[i - offset]?.getD 0
      else memory.byte i := by
  have inside := offset?_bound found
  have size := memory.size_lt_capacity
  simp only [load?, found, Option.map_some, Option.some.injEq] at loaded
  cases loaded
  change (memory.cells.store memory.levels offset bytes).get memory.levels i = _
  rw [Cells.get_store _ _ (by omega) (by omega), byte]

theorem fillZero?_byte {memory after : Memory} {address : UInt64} {length offset : Nat}
    (cleared : memory.fillZero? address length = some after)
    (found : memory.offset? address length = some offset) {i : Nat}
    (bound : i < memory.size.toNat) :
    after.byte i = if offset ≤ i ∧ i < offset + length then 0 else memory.byte i := by
  have size := memory.size_lt_capacity
  simp only [fillZero?, found, Option.map_some, Option.some.injEq] at cleared
  cases cleared
  change (memory.cells.fill memory.levels offset (offset + length) 0).get memory.levels i = _
  rw [Cells.get_fill _ _ (by omega), byte]

end Memory

end HartScope
