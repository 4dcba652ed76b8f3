/-!
A ring of the most recent entries.  A push goes into the slot behind the newest entry and, once the
ring is full, overwrites the oldest.  A ring of capacity zero records nothing.
-/

namespace HartScope

structure Ring (α : Type) where
  capacity : Nat
  slots : Array α := #[]
  /-- Slot of the newest entry. -/
  newest : Option Nat := none
deriving DecidableEq, Repr

namespace Ring

variable {α : Type}

def new (capacity : Nat) : Ring α :=
  { capacity := capacity }

def size (ring : Ring α) : Nat :=
  ring.slots.size

def isEmpty (ring : Ring α) : Bool :=
  ring.slots.isEmpty

def nextSlot (ring : Ring α) : Nat :=
  match ring.newest with
  | none => 0
  | some slot => (slot + 1) % ring.capacity

def push (ring : Ring α) (entry : α) : Ring α :=
  if ring.capacity = 0 then ring
  else
    let slot := ring.nextSlot
    let slots :=
      if slot < ring.slots.size then ring.slots.setIfInBounds slot entry
      else ring.slots.push entry
    { ring with slots := slots, newest := some slot }

def last? (ring : Ring α) : Option α :=
  ring.newest.bind (ring.slots[·]?)

def marker (ring : Ring α) (slot : Nat) : String :=
  if ring.newest = some slot then "-->" else "   "

/-- A line for every slot in order, with the newest entry marked. -/
def dump (ring : Ring α) (line : α → String) : String :=
  String.join (ring.slots.toList.zipIdx.map fun (entry, slot) =>
    s!"{ring.marker slot} {line entry}\n")

end Ring

end HartScope
