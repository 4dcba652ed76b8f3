import HartScope.Device.Basic

/-!
Real-time clock.  A 64-bit count of microseconds is read in two words: reading the high word takes
the time and latches it, reading the low word gives the latched value, so a guest that reads high
and then low sees one consistent pair.  Byte accesses see the latched value.
-/

namespace HartScope

/-- The readings that a clock will give, and how many of them have been taken. -/
structure Clock where
  reading : Nat → UInt64
  taken : Nat := 0

namespace Clock

def stopped : Clock :=
  ⟨fun _ => 0, 0⟩

/-- A clock that advances by one microsecond with each reading. -/
def startingAt (now : UInt64) : Clock :=
  ⟨fun n => now + UInt64.ofNat n, 0⟩

def sample (clock : Clock) : UInt64 × Clock :=
  (clock.reading clock.taken, { clock with taken := clock.taken + 1 })

end Clock

structure Timer where
  base : UInt64
  latched : UInt64 := 0
  clock : Clock := Clock.stopped

namespace Timer

def latch (timer : Timer) : Timer :=
  let (now, clock) := timer.clock.sample
  { timer with latched := now, clock := clock }

def readByte (timer : Timer) (offset : UInt64) : UInt8 × Timer :=
  ((timer.latched >>> ((offset &&& 7) * 8)).toUInt8, timer)

def readWord (timer : Timer) (offset : UInt64) : UInt64 × Timer :=
  if offset = 0 then (timer.latched &&& 0xFFFFFFFF, timer)
  else if offset = 4 then (timer.latch.latched >>> 32, timer.latch)
  else (0, timer)

def readDouble (timer : Timer) (offset : UInt64) : UInt64 × Timer :=
  if offset = 0 then (timer.latch.latched, timer.latch) else (0, timer)

def read? (timer : Timer) (width : Width) (offset : UInt64) : Option (UInt64 × Timer) :=
  match width with
  | .byte | .half => Device.readWide? readByte timer width offset
  | .word => some (timer.readWord offset)
  | .double => some (timer.readDouble offset)

instance : Device Timer where
  name _ := "rtc"
  window timer := ⟨timer.base, 8⟩
  readByte := readByte
  writeByte timer _ _ := (timer, [])
  read? := read?

end Timer

end HartScope
