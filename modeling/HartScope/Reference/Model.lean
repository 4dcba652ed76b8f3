import HartScope.Output
import HartScope.Reference.Context

/-!
A reference model: a machine that executes the same program, seen through five operations.
-/

namespace HartScope

class ReferenceModel (ρ : Type) where
  /-- Copies bytes to an address of the reference's memory. -/
  copyMemory : ρ → UInt64 → List UInt8 → ρ × Except OutOfBound Unit
  setRegisters : ρ → RegisterContext → ρ
  getRegisters : ρ → RegisterContext × ρ
  execute : ρ → Nat → ρ × List Event
  raiseInterrupt : ρ → UInt64 → ρ

end HartScope
