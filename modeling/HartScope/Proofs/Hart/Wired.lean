import HartScope.Hart.Step

/-!
Register zero is wired to zero.  Its cell is never read, but a snapshot carries it, and a register
file is what a snapshot restores only as long as that cell is zero.
-/

namespace HartScope

namespace Registers

/-- The cell of register zero holds zero. -/
def Wired (registers : Registers) : Prop :=
  registers.cells.get Reg.zero = 0

variable {registers : Registers}

theorem wired_empty : Wired {} :=
  Vector.getElem_replicate _

theorem wired_restore (values : Vector UInt64 32) : (restore values).Wired := by
  change (values.set 0 0)[0] = 0
  exact Vector.getElem_set_self _

theorem Wired.set (wired : registers.Wired) (r : Reg) (value : UInt64) :
    (registers.set r value).Wired := by
  unfold Registers.set write
  split
  · exact wired
  · rename_i nonzero
    have apart : (cellOf r.val).val ≠ 0 := by rwa [cellOf_val]
    change (registers.cells.set (cellOf r.val).val value)[0] = 0
    rw [Vector.getElem_set_ne _ _ apart]
    exact wired

/-- A file whose register zero is wired is restored from its own snapshot. -/
theorem Wired.restore_snapshot (wired : registers.Wired) :
    restore registers.snapshot = registers := by
  have unchanged : registers.cells.set 0 0 = registers.cells := by
    apply Vector.ext
    intro i bound
    rw [Vector.getElem_set]
    split
    · rename_i first
      subst first
      exact wired.symm
    · rfl
  simp [restore, snapshot, unchanged]

end Registers

namespace Hart

variable {δ : Type} [Device δ] {hart : Hart}

theorem execute_wired (wired : hart.registers.Wired) (bus : Bus δ) (instruction : Instruction) :
    (hart.execute bus instruction).hart.registers.Wired := by
  cases instruction with
  | lui rd imm | auipc rd imm | jal rd imm | jalr rd rs1 imm | opImm op narrow rd rs1 imm
  | op op narrow rd rs1 rs2 => exact wired.set rd _
  | branch condition rs1 rs2 imm =>
      simp only [execute]
      split <;> exact wired
  | load form rd rs1 imm =>
      simp only [execute, executeLoad]
      split
      · exact wired
      · exact wired.set rd _
  | store width rs1 rs2 imm =>
      simp only [execute, executeStore]
      split <;> exact wired
  | ecall =>
      simp only [execute, executeEnvironmentCall]
      split <;> exact wired
  | csr action csr rd source => exact wired.set rd _
  | fence | ebreak | mret => exact wired

theorem step_wired (wired : hart.registers.Wired) (bus : Bus δ) :
    (hart.step bus).hart.registers.Wired := by
  simp only [step]
  split
  · exact wired
  · simp only [executeWord]
    split
    · exact wired
    · exact execute_wired wired _ _

end Hart

end HartScope
