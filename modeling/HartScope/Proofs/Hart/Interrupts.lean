import HartScope.Proofs.Hart.CsrAccess
import Mathlib.Data.Nat.Bitwise

/-!
Interrupts of the hart.  Entering one clears the enable bit, and only a trap return and a write to the
status register can set it again.
-/

namespace HartScope

namespace Csrs

/-- The least significant bit that is set. -/
def LowestSet (value : UInt64) (index : Nat) : Prop :=
  value.toNat.testBit index = true ∧ ∀ lower < index, value.toNat.testBit lower = false

/-- A mask of one bit tells whether that bit is set. -/
theorem and_bit_ne_zero (value : UInt64) {mask : UInt64} {place : Nat}
    (single : mask.toNat = 2 ^ place) : (value &&& mask != 0) = value.toNat.testBit place := by
  have bit : (value &&& mask).toNat = (value.toNat.testBit place).toNat * 2 ^ place := by
    rw [UInt64.toNat_and, single, ← Nat.and_two_pow]
  have zero : value &&& mask = 0 ↔ value.toNat.testBit place = false := by
    rw [← UInt64.toNat_inj, bit, UInt64.toNat_zero, Nat.mul_eq_zero]
    simp
  cases set : value.toNat.testBit place with
  | false => simp [zero.mpr set]
  | true => simp [zero, set]

theorem interruptsEnabled_eq (csrs : Csrs) :
    csrs.interruptsEnabled = csrs.mstatus.toNat.testBit 3 :=
  and_bit_ne_zero csrs.mstatus (by decide)

theorem enterTrap_disables (csrs : Csrs) (cause epc : UInt64) :
    (csrs.enterTrap cause epc).interruptsEnabled = false := by
  have cleared : (~~~(mieBit ||| mpieBit ||| mppBits)).toNat.testBit 3 = false := by decide
  have mode : mppBits.toNat.testBit 3 = false := by decide
  have saved : (if csrs.interruptsEnabled then mpieBit else 0).toNat.testBit 3 = false := by
    split <;> decide
  rw [interruptsEnabled_eq]
  simp only [enterTrap, UInt64.toNat_or, UInt64.toNat_and, Nat.testBit_or, Nat.testBit_and, cleared,
    mode, saved, Bool.and_false, Bool.or_false]

theorem lowestBit_spec {value : UInt64} {count start : Nat}
    (present : ∃ index, start ≤ index ∧ index < start + count ∧ value.toNat.testBit index = true) :
    lowestBit value count start < start + count ∧
      value.toNat.testBit (lowestBit value count start) = true ∧
      ∀ lower, start ≤ lower → lower < lowestBit value count start →
        value.toNat.testBit lower = false := by
  induction count generalizing start with
  | zero =>
      obtain ⟨index, lower, upper, _⟩ := present
      omega
  | succ count ih =>
      rw [lowestBit]
      by_cases here : value.toNat.testBit start = true
      · rw [if_pos here]
        exact ⟨by omega, here, by omega⟩
      · rw [if_neg here]
        obtain ⟨index, lower, upper, set⟩ := present
        have further : index ≠ start := by
          rintro rfl
          exact here set
        have later : ∃ index, start + 1 ≤ index ∧ index < start + 1 + count ∧
            value.toNat.testBit index = true := ⟨index, by omega, by omega, set⟩
        obtain ⟨bound, found, unset⟩ := ih later
        refine ⟨by omega, found, ?_⟩
        intro other least below
        by_cases first : other = start
        · rw [first]
          exact Bool.eq_false_iff.mpr here
        · exact unset other (by omega) below

theorem lowestBit_lowestSet {value : UInt64} (nonzero : value ≠ 0) :
    lowestBit value 64 0 < 64 ∧ LowestSet value (lowestBit value 64 0) := by
  have positive : value.toNat ≠ 0 := fun zero => nonzero (UInt64.toNat_inj.mp zero)
  obtain ⟨index, set⟩ := Nat.exists_testBit_of_ne_zero positive
  have bound : index < 64 := by
    by_contra beyond
    have large : value.toNat < 2 ^ index :=
      Nat.lt_of_lt_of_le value.toNat_lt (Nat.pow_le_pow_right (by decide) (by omega))
    rw [Nat.testBit_lt_two_pow large] at set
    contradiction
  have present : ∃ index, 0 ≤ index ∧ index < 0 + 64 ∧ value.toNat.testBit index = true :=
    ⟨index, Nat.zero_le _, by omega, set⟩
  obtain ⟨small, found, unset⟩ := lowestBit_spec present
  exact ⟨by omega, found, fun lower below => unset lower (Nat.zero_le _) below⟩

theorem interruptCause_toNat {index : Nat} (bound : index < 64) :
    (interruptFlag ||| UInt64.ofNat index).toNat = 2 ^ 63 + index := by
  have small : (UInt64.ofNat index).toNat = index :=
    UInt64.toNat_ofNat_of_lt' (Nat.lt_trans bound (by decide))
  have below : index < 2 ^ 63 := Nat.lt_trans bound (by decide)
  have sum := Nat.two_pow_add_eq_or_of_lt below 1
  rw [UInt64.toNat_or, small]
  exact sum.symm

end Csrs

namespace Hart

/-- Interrupts are enabled, and one that is enabled itself is pending. -/
def InterruptPending (hart : Hart) : Prop :=
  hart.csrs.mstatus.toNat.testBit 3 = true ∧ hart.csrs.mip &&& hart.csrs.mie ≠ 0

/-- What entering an interrupt does to a hart. -/
structure InterruptEntry (before after : Hart) : Prop where
  mepc : after.csrs.mepc = before.pc
  mcause : ∃ line, Csrs.LowestSet (before.csrs.mip &&& before.csrs.mie) line ∧
    after.csrs.mcause.toNat = 2 ^ 63 + line
  pc : after.pc = before.csrs.mtvec
  registers : after.registers = before.registers
  kept : ∀ csr, csr ∉ [Csr.mepc, .mcause, .mstatus] → after.csrs.get csr = before.csrs.get csr
  disabled : after.csrs.mstatus.toNat.testBit 3 = false

theorem pendingInterrupt?_isSome_iff (hart : Hart) :
    hart.csrs.pendingInterrupt?.isSome = true ↔ hart.InterruptPending := by
  rw [InterruptPending, ← Csrs.interruptsEnabled_eq, Csrs.pendingInterrupt?]
  split <;> simp_all

theorem enterTrap_entry {hart : Hart} {cause : UInt64}
    (pending : hart.csrs.pendingInterrupt? = some cause) :
    hart.InterruptEntry (hart.enterTrap cause) := by
  have disabled := hart.csrs.enterTrap_disables cause hart.pc
  rw [Csrs.interruptsEnabled_eq] at disabled
  obtain ⟨_, nonzero⟩ := hart.pendingInterrupt?_isSome_iff.mp (by rw [pending]; rfl)
  obtain ⟨bound, lowest⟩ := Csrs.lowestBit_lowestSet nonzero
  simp only [Csrs.pendingInterrupt?] at pending
  split at pending
  · cases pending
    exact
      { mepc := rfl
        mcause := ⟨_, lowest, Csrs.interruptCause_toNat bound⟩
        pc := rfl
        registers := rfl
        kept := by
          intro csr other
          cases csr with
          | mepc | mcause | mstatus => simp at other
          | misa | mie | mtvec | mscratch | mtval | mip | mhartid => rfl
        disabled := disabled }
  · cases pending

end Hart

namespace Instruction

/-- A trap return, or an instruction that writes to the status register. -/
def WritesStatus : Instruction → Prop
  | mret => True
  | csr action register _ source =>
      register = .mstatus ∧ (action = .write ∨ source.field ≠ Reg.zero)
  | _ => False

end Instruction

namespace Hart

variable {δ : Type} [Device δ]

theorem updatedCsrs_mstatus (hart : Hart) {action : CsrAction} {csr : Csr} {source : CsrSource}
    (spared : ¬(csr = .mstatus ∧ (action = .write ∨ source.field ≠ Reg.zero))) :
    (hart.updatedCsrs action csr source).mstatus = hart.csrs.mstatus := by
  by_cases target : csr = .mstatus
  · have idle := not_or.mp fun writes => spared ⟨target, writes⟩
    have unnamed : source.field = Reg.zero := not_not.mp idle.2
    cases action with
    | write => exact absurd rfl idle.1
    | setBits | clearBits => simp only [updatedCsrs, unnamed, if_true]
  · exact hart.updatedCsrs_get_ne action (Ne.symm target) source

/-- Interrupts stay disabled over an instruction that does not write to the status register. -/
theorem execute_disabled {hart : Hart} (bus : Bus δ) {instruction : Instruction}
    (disabled : hart.csrs.interruptsEnabled = false) (spared : ¬instruction.WritesStatus) :
    (hart.execute bus instruction).hart.csrs.interruptsEnabled = false := by
  cases instruction with
  | load form rd rs1 imm =>
      simp only [execute, executeLoad]
      split <;> exact disabled
  | store width rs1 rs2 imm =>
      simp only [execute, executeStore]
      split <;> exact disabled
  | ecall =>
      simp only [execute, executeEnvironmentCall]
      split
      · exact hart.csrs.enterTrap_disables _ _
      · exact disabled
  | branch condition rs1 rs2 imm =>
      simp only [execute]
      split <;> exact disabled
  | csr action csr rd source =>
      have status : (hart.updatedCsrs action csr source).mstatus = hart.csrs.mstatus :=
        hart.updatedCsrs_mstatus spared
      rw [Csrs.interruptsEnabled_eq] at disabled ⊢
      exact (congrArg (fun value => value.toNat.testBit 3) status).trans disabled
  | mret => exact (spared trivial).elim
  | lui | auipc | jal | jalr | opImm | op | fence | ebreak => exact disabled

/-- The next instruction retires, and it is one that writes to the status register. -/
def RetiresStatusWrite (hart : Hart) (bus : Bus δ) : Prop :=
  ∃ word instruction, hart.fetched? bus = some word ∧
    Instruction.ofWord? word = some instruction ∧ instruction.WritesStatus ∧
    (hart.step bus).result = .ok .next

theorem execute_writesStatus (hart : Hart) (bus : Bus δ) {instruction : Instruction}
    (writes : instruction.WritesStatus) : (hart.execute bus instruction).result = .ok .next := by
  cases instruction with
  | mret | csr => rfl
  | lui | auipc | jal | jalr | branch | load | store | opImm | op | fence | ecall | ebreak =>
      cases writes

theorem step_disabled {hart : Hart} {bus : Bus δ} (disabled : hart.csrs.interruptsEnabled = false)
    (spared : ¬hart.RetiresStatusWrite bus) :
    (hart.step bus).hart.csrs.interruptsEnabled = false := by
  rcases hart.step_cases bus with ⟨_, _, refused⟩ | ⟨_, _, _, invalid⟩ |
    ⟨word, instruction, after, fetched, decoded, result, same⟩
  · rw [congrArg Completion.hart (step_error refused).1]
    exact disabled
  · rw [congrArg Completion.hart (step_error invalid).1]
    exact disabled
  · rw [same]
    apply execute_disabled after disabled
    intro writes
    exact spared ⟨word, instruction, fetched, decoded, writes,
      result.trans (hart.execute_writesStatus after writes)⟩

end Hart

end HartScope
