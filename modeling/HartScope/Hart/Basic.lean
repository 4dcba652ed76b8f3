import HartScope.Hart.Csrs
import HartScope.Hart.Registers

/-!
Architectural state of the hart.
-/

namespace HartScope

structure Hart where
  registers : Registers := {}
  pc : UInt64
  csrs : Csrs := {}
deriving DecidableEq, Repr

namespace Hart

/-- Where RAM starts on the default board, and where the hart starts. -/
def resetVector : UInt64 := 0x80000000

/-- The state after a reset that continues at `entry`. -/
def reset (entry : UInt64) : Hart :=
  { pc := entry }

def get (hart : Hart) (r : Reg) : UInt64 :=
  hart.registers.get r

def set (hart : Hart) (r : Reg) (value : UInt64) : Hart :=
  { hart with registers := hart.registers.set r value }

def jump (hart : Hart) (target : UInt64) : Hart :=
  { hart with pc := target }

def successor (hart : Hart) : UInt64 :=
  hart.pc + 4

def advance (hart : Hart) : Hart :=
  hart.jump hart.successor

/-- Enters the trap handler; the interrupted address is the current one. -/
def enterTrap (hart : Hart) (cause : UInt64) : Hart :=
  { hart with csrs := hart.csrs.enterTrap cause hart.pc, pc := hart.csrs.mtvec }

def dumpTail (hart : Hart) : String :=
  Registers.line "pc" hart.pc ++
    String.join ([Csr.mstatus, Csr.mtvec, Csr.mepc, Csr.mcause].map fun csr =>
      Numeral.padRight 8 csr.name ++ Numeral.hex (hart.csrs.get csr).toNat ++ "\n")

/-- The register file, the program counter and the trap registers. -/
def dump (hart : Hart) : String :=
  hart.registers.dump ++ hart.dumpTail

end Hart

end HartScope
