import HartScope.Access
import HartScope.Memory.LittleEndian

/-!
Memory-mapped devices.  A device is a state with byte accesses at offsets from its window's start.
Unless a device says otherwise, a wider read joins two reads of half its width, the one at the lower
offset first and least significant, and a wider write is one byte write after the other.  A write may
send bytes to the host.  Where an offset overflows the program ends, and the access has no answer.
-/

namespace HartScope

/-- The addresses from `start` on that a device claims. -/
structure Window where
  start : UInt64
  size : UInt64
deriving DecidableEq, Repr

/-- The end of the access stays at the largest address.  The end of the window is a sum that nothing
guards: an access behind the start of a window whose end overflows ends the program, and here such a
window covers nothing. -/
def Window.covers (window : Window) (address : UInt64) (length : Nat) : Bool :=
  window.start ≤ address &&
    min (address.toNat + length) (UInt64.size - 1) ≤ (window.start + window.size).toNat

namespace Device

variable {δ : Type}

/-- Two byte reads at ascending offsets. -/
def readHalf? (readByte : δ → UInt64 → UInt8 × δ) (device : δ) (offset : UInt64) :
    Option (UInt16 × δ) := do
  let (low, device) := readByte device offset
  let (high, device) := readByte device (← exactSum? offset 1)
  return (UInt16.ofNat (LittleEndian.toNat [low, high]), device)

def readWord? (readByte : δ → UInt64 → UInt8 × δ) (device : δ) (offset : UInt64) :
    Option (UInt32 × δ) := do
  let (low, device) ← readHalf? readByte device offset
  let (high, device) ← readHalf? readByte device (← exactSum? offset 2)
  return (low.toUInt32 ||| high.toUInt32 <<< 16, device)

def readDouble? (readByte : δ → UInt64 → UInt8 × δ) (device : δ) (offset : UInt64) :
    Option (UInt64 × δ) := do
  let (low, device) ← readWord? readByte device offset
  let (high, device) ← readWord? readByte device (← exactSum? offset 4)
  return (low.toUInt64 ||| high.toUInt64 <<< 32, device)

/-- A read of any width by means of byte reads. -/
def readWide? (readByte : δ → UInt64 → UInt8 × δ) (device : δ) (width : Width)
    (offset : UInt64) : Option (UInt64 × δ) :=
  match width with
  | .byte => some ((readByte device offset).map UInt8.toUInt64 id)
  | .half => (readHalf? readByte device offset).map (Prod.map UInt16.toUInt64 id)
  | .word => (readWord? readByte device offset).map (Prod.map UInt32.toUInt64 id)
  | .double => readDouble? readByte device offset

/-- Writes bytes one after the other, the first of them `distance` behind the offset. -/
def writeFrom? (writeByte : δ → UInt64 → UInt8 → δ × List UInt8) (offset : UInt64) :
    (distance : Nat) → List UInt8 → δ → Option (δ × List UInt8)
  | _, [], device => some (device, [])
  | distance, byte :: later, device => do
      let (device, sent) := writeByte device (← exactSum? offset (UInt64.ofNat distance)) byte
      let (device, rest) ← writeFrom? writeByte offset (distance + 1) later device
      return (device, sent ++ rest)

/-- A write of any width by means of byte writes. -/
def writeWide? (writeByte : δ → UInt64 → UInt8 → δ × List UInt8) (device : δ) (width : Width)
    (offset value : UInt64) : Option (δ × List UInt8) :=
  writeFrom? writeByte offset 0 (LittleEndian.ofNat width.bytes value.toNat) device

end Device

class Device (δ : Type) where
  name : δ → String
  window : δ → Window
  readByte : δ → UInt64 → UInt8 × δ
  /-- The new state and the bytes that go to the host at once. -/
  writeByte : δ → UInt64 → UInt8 → δ × List UInt8
  /-- A read, unless it ends the program. -/
  read? : δ → Width → UInt64 → Option (UInt64 × δ) := Device.readWide? readByte
  /-- A write, unless it ends the program. -/
  write? : δ → Width → UInt64 → UInt64 → Option (δ × List UInt8) := Device.writeWide? writeByte
  /-- Called once after each retired instruction. -/
  update : δ → δ := id
  /-- Bytes still held back, which go to the host when the device is taken away. -/
  close : δ → List UInt8 := fun _ => []

namespace Device

variable {δ : Type} [Device δ]

/-- A read by a program that goes on, as one inside the window always lets it.  What stands here for the
end of the program is of no account. -/
def read (device : δ) (width : Width) (offset : UInt64) : UInt64 × δ :=
  (Device.read? device width offset).getD (0, device)

def write (device : δ) (width : Width) (offset value : UInt64) : δ × List UInt8 :=
  (Device.write? device width offset value).getD (device, [])

end Device

/-- A device of one kind or of another. -/
instance {δ ε : Type} [Device δ] [Device ε] : Device (δ ⊕ ε) where
  name
    | .inl device => Device.name device
    | .inr device => Device.name device
  window
    | .inl device => Device.window device
    | .inr device => Device.window device
  readByte
    | .inl device, offset => (Device.readByte device offset).map id .inl
    | .inr device, offset => (Device.readByte device offset).map id .inr
  writeByte
    | .inl device, offset, byte => (Device.writeByte device offset byte).map .inl id
    | .inr device, offset, byte => (Device.writeByte device offset byte).map .inr id
  read?
    | .inl device, width, offset => (Device.read? device width offset).map (Prod.map id .inl)
    | .inr device, width, offset => (Device.read? device width offset).map (Prod.map id .inr)
  write?
    | .inl device, width, offset, value =>
        (Device.write? device width offset value).map (Prod.map .inl id)
    | .inr device, width, offset, value =>
        (Device.write? device width offset value).map (Prod.map .inr id)
  update
    | .inl device => .inl (Device.update device)
    | .inr device => .inr (Device.update device)
  close
    | .inl device => Device.close device
    | .inr device => Device.close device

end HartScope
