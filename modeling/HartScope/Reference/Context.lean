import HartScope.Hart.Basic
import HartScope.Reference.Mismatch

/-!
The registers that the hart and its reference exchange and that are compared: the register file, the
program counter and the CSRs that traps touch.
-/

namespace HartScope

structure RegisterContext where
  registers : Vector UInt64 32 := Vector.replicate 32 0
  pc : UInt64 := 0
  mstatus : UInt64 := 0
  mcause : UInt64 := 0
  mepc : UInt64 := 0
  mtvec : UInt64 := 0
deriving DecidableEq, Repr

namespace RegisterContext

def ofHart (hart : Hart) : RegisterContext where
  registers := hart.registers.snapshot
  pc := hart.pc
  mstatus := hart.csrs.mstatus
  mcause := hart.csrs.mcause
  mepc := hart.csrs.mepc
  mtvec := hart.csrs.mtvec

/-- The hart with the exchanged registers taken over; the other CSRs keep their values. -/
def apply (context : RegisterContext) (hart : Hart) : Hart where
  registers := Registers.restore context.registers
  pc := context.pc
  csrs := { hart.csrs with
    mstatus := context.mstatus
    mcause := context.mcause
    mepc := context.mepc
    mtvec := context.mtvec }

/-- The compared fields by name, in the order in which disagreements are listed. -/
def fields (context : RegisterContext) : List (String × UInt64) :=
  (List.finRange 32).map (fun r => (Reg.name r, context.registers[r.val])) ++
    [("pc", context.pc), ("mcause", context.mcause), ("mstatus", context.mstatus),
      ("mepc", context.mepc), ("mtvec", context.mtvec)]

/-- The fields in which the hart differs from the reference. -/
def mismatches (reference actual : RegisterContext) : List Mismatch :=
  (reference.fields.zip actual.fields).filterMap fun (expected, found) =>
    if expected.2 = found.2 then none else some ⟨expected.1, expected.2, found.2⟩

end RegisterContext

end HartScope
