import HartScope.Device.Basic
import HartScope.Memory.Basic
import HartScope.Output

/-!
The bus.  An access whose bytes all lie in RAM is served by RAM; any other is offered to the
devices in order of their windows' starts, the one that served last being asked first.  An access
that a device serves is remembered until the flag is taken, and one that nobody claims changes
nothing.

A device access whose offset overflows ends the program and is not among the answers here.  Only a
window that starts in the first seven addresses and ends at the largest one lets such an access
through.
-/

namespace HartScope

structure Bus (δ : Type) where
  ram : Memory
  devices : List δ := []
  /-- Position of the device that served last. -/
  hint : Nat := 0
  /-- Whether a device served an access since the flag was last taken. -/
  touched : Bool := false

/-- The answer to one access: its result, the bus afterwards, and what left the machine. -/
structure Transaction (δ α : Type) where
  result : Except OutOfBound α
  bus : Bus δ
  output : List Output

namespace Bus

variable {δ : Type} [Device δ]

def startsBefore (a b : δ) : Bool :=
  (Device.window a).start ≤ (Device.window b).start

/-- Adds a device behind those whose windows start no later. -/
def add (bus : Bus δ) (device : δ) : Bus δ :=
  { bus with devices := (bus.devices ++ [device]).mergeSort startsBefore, hint := 0 }

def withDevices (ram : Memory) (devices : List δ) : Bus δ :=
  devices.foldl add { ram := ram }

def takeTouched (bus : Bus δ) : Bool × Bus δ :=
  (bus.touched, { bus with touched := false })

def update (bus : Bus δ) : Bus δ :=
  { bus with devices := bus.devices.map Device.update }

/-- Position of the first device, in order of the windows, that claims the whole access. -/
def scan? (bus : Bus δ) (address : UInt64) (length : Nat) : Option Nat :=
  bus.devices.findIdx? fun device => (Device.window device).covers address length

def route? (bus : Bus δ) (address : UInt64) (length : Nat) : Option Nat :=
  match bus.devices[bus.hint]? with
  | some device =>
      if (Device.window device).covers address length then some bus.hint
      else bus.scan? address length
  | none => bus.scan? address length

/-- The device that serves an access, with its position. -/
def target? (bus : Bus δ) (address : UInt64) (length : Nat) : Option (Nat × δ) :=
  (bus.route? address length).bind fun position =>
    bus.devices[position]?.map fun device => (position, device)

/-- The bus after the device at `position` has served an access. -/
def served (bus : Bus δ) (position : Nat) (device : δ) : Bus δ :=
  { bus with devices := bus.devices.set position device, hint := position, touched := true }

def read (bus : Bus δ) (address : UInt64) (width : Width) (kind : AccessKind) :
    Transaction δ UInt64 :=
  match bus.ram.read? address width with
  | some value => ⟨.ok value, bus, []⟩
  | none =>
      match bus.target? address width.bytes with
      | none => ⟨.error ⟨address, width, kind⟩, bus, []⟩
      | some (position, device) =>
          let (value, after) := Device.read device width (address - (Device.window device).start)
          ⟨.ok value, bus.served position after,
            [.log (.deviceRead address value (Device.name device))]⟩

def write (bus : Bus δ) (address : UInt64) (width : Width) (value : UInt64) :
    Transaction δ Unit :=
  match bus.ram.write? address width value with
  | some ram => ⟨.ok (), { bus with ram := ram }, []⟩
  | none =>
      match bus.target? address width.bytes with
      | none => ⟨.error ⟨address, width, .write⟩, bus, []⟩
      | some (position, device) =>
          let (after, sent) :=
            Device.write device width (address - (Device.window device).start) value
          ⟨.ok (), bus.served position after,
            [.serial sent, .log (.deviceWrite address value (Device.name device))]⟩

/-- Bytes that the devices still hold back when the bus is taken down. -/
def close (bus : Bus δ) : List UInt8 :=
  bus.devices.flatMap Device.close

end Bus

end HartScope
