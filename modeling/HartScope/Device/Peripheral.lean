import HartScope.Device.Serial
import HartScope.Device.Timer

/-!
The devices of the simulated board.
-/

namespace HartScope

abbrev Peripheral := Serial ⊕ Timer

namespace Peripheral

def serialBase : UInt64 := 0xA00003F8
def timerBase : UInt64 := 0xA0000048

def defaults : List Peripheral :=
  [.inl ⟨serialBase, #[]⟩, .inr ⟨timerBase, 0, Clock.stopped⟩]

/-- Gives a timer a new supply of readings; other devices have no clock. -/
def setClock (clock : Clock) : Peripheral → Peripheral
  | .inl serial => .inl serial
  | .inr timer => .inr { timer with clock := clock }

end Peripheral

end HartScope
