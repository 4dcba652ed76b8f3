import HartScope.Text.Numeral

/-!
How memory is accessed: sums of addresses and distances, the width of one access, what it is for, and
the fault of an address that neither RAM nor a device claims.
-/

namespace HartScope

/-- The sum of an address and a distance, unless it overflows. -/
def exactSum? (address distance : UInt64) : Option UInt64 :=
  if address.toNat + distance.toNat < UInt64.size then some (address + distance) else none

theorem exactSum?_eq_none_iff {address distance : UInt64} :
    exactSum? address distance = none ↔ UInt64.size ≤ address.toNat + distance.toNat := by
  simp [exactSum?]

theorem exactSum?_toNat {address distance sum : UInt64}
    (exact : exactSum? address distance = some sum) :
    sum.toNat = address.toNat + distance.toNat := by
  unfold exactSum? at exact
  split at exact
  · rename_i fits
    cases exact
    rw [UInt64.toNat_add]
    exact Nat.mod_eq_of_lt fits
  · cases exact

inductive Width where
  | byte
  | half
  | word
  | double
deriving DecidableEq, Repr

namespace Width

def bytes : Width → Nat
  | byte => 1
  | half => 2
  | word => 4
  | double => 8

def mask : Width → UInt64
  | byte => 0xFF
  | half => 0xFFFF
  | word => 0xFFFFFFFF
  | double => 0xFFFFFFFFFFFFFFFF

def text (width : Width) : String :=
  toString width.bytes

theorem bytes_pos (width : Width) : 0 < width.bytes := by
  cases width <;> decide

theorem bytes_le (width : Width) : width.bytes ≤ 8 := by
  cases width <;> decide

theorem mask_toNat (width : Width) : width.mask.toNat = 1 <<< (8 * width.bytes) - 1 := by
  cases width <;> decide

end Width

inductive AccessKind where
  | fetch
  | read
  | write
deriving DecidableEq, Repr

def AccessKind.text : AccessKind → String
  | fetch => "fetch"
  | read => "read"
  | write => "write"

structure OutOfBound where
  address : UInt64
  width : Width
  kind : AccessKind
deriving DecidableEq, Repr

def OutOfBound.message (fault : OutOfBound) : String :=
  s!"address {Numeral.hex fault.address.toNat} ({fault.kind.text}, {fault.width.text} bytes) " ++
    "is out of bound"

end HartScope
