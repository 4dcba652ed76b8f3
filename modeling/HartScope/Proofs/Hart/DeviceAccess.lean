import HartScope.Proofs.Bus.Transaction
import HartScope.Hart.Step

/-!
Which instructions a device takes part in.  The bus only remembers that a device has served some
access; here the accesses of an instruction are listed, and the memory of the bus is shown to be
about them.
-/

namespace HartScope

theorem Memory.write?_isSome (memory : Memory) (address : UInt64) (width : Width) (value : UInt64) :
    (memory.write? address width value).isSome = (memory.read? address width).isSome := by
  simp [write?, load?, read?, slice?, LittleEndian.ofNat_length]

theorem Memory.write?_eq_none_iff {memory : Memory} {address : UInt64} {width : Width}
    {value : UInt64} : memory.write? address width value = none ↔ memory.read? address width = none := by
  rw [← Option.not_isSome_iff_eq_none, ← Option.not_isSome_iff_eq_none, write?_isSome]

variable {δ : Type} [Device δ]

namespace Bus

/-- The access is outside RAM, and a device claims it. -/
def claimed (bus : Bus δ) (address : UInt64) (width : Width) : Bool :=
  (bus.ram.read? address width).isNone && (bus.target? address width.bytes).isSome

theorem read_touched (bus : Bus δ) (address : UInt64) (width : Width) (kind : AccessKind) :
    (bus.read address width kind).bus.touched = (bus.touched || bus.claimed address width) := by
  obtain ⟨_, inRam, shape⟩ | ⟨outside, unclaimed, shape⟩ | ⟨position, device, outside, found, shape⟩ :=
    bus.read_cases address width kind
  · simp [shape, claimed, inRam]
  · simp [shape, claimed, unclaimed]
  · simp [shape, claimed, outside, found, deviceRead, served]

theorem write_touched (bus : Bus δ) (address : UInt64) (width : Width) (value : UInt64) :
    (bus.write address width value).bus.touched = (bus.touched || bus.claimed address width) := by
  have sameRange := bus.ram.write?_isSome address width value
  obtain ⟨_, inRam, shape⟩ | ⟨outside, unclaimed, shape⟩ | ⟨position, device, outside, found, shape⟩ :=
    bus.write_cases address width value
  · rw [inRam] at sameRange
    simp [shape, claimed, Option.isNone_eq_false_iff.mpr sameRange.symm]
  · simp [shape, claimed, unclaimed]
  · simp [shape, claimed, Memory.write?_eq_none_iff.mp outside, found, deviceWrite, served]

end Bus

namespace Hart

variable (hart : Hart)

def dataAccess? : Instruction → Option (UInt64 × Width)
  | .load form _ rs1 imm => some (hart.address rs1 imm, form.width)
  | .store width rs1 _ imm => some (hart.address rs1 imm, width)
  | .lui .. | .auipc .. | .jal .. | .jalr .. | .branch .. | .opImm .. | .op .. | .fence | .ecall
  | .ebreak | .mret | .csr .. => none

/-- A device serves the word of the next instruction, or the data that the instruction loads or
stores. -/
def reachesDevice (bus : Bus δ) : Bool :=
  let fetch := bus.read hart.pc .word .fetch
  bus.claimed hart.pc .word ||
    match fetch.result with
    | .error _ => false
    | .ok value =>
        ((Instruction.ofWord? value.toUInt32).bind hart.dataAccess?).any fun (address, width) =>
          fetch.bus.claimed address width

theorem execute_touched (bus : Bus δ) (instruction : Instruction) :
    (hart.execute bus instruction).bus.touched =
      (bus.touched ||
        (hart.dataAccess? instruction).any fun (address, width) => bus.claimed address width) := by
  cases instruction with
  | load form rd rs1 imm =>
      have flag := bus.read_touched (hart.address rs1 imm) form.width .read
      simp only [execute, executeLoad, dataAccess?, Option.any_some]
      split <;> exact flag
  | store width rs1 rs2 imm =>
      have flag := bus.write_touched (hart.address rs1 imm) width (hart.get rs2 &&& width.mask)
      simp only [execute, executeStore, dataAccess?, Option.any_some]
      split <;> exact flag
  | ecall =>
      simp only [execute, executeEnvironmentCall, dataAccess?]
      split <;> simp
  | lui | auipc | jal | jalr | branch | opImm | op | fence | ebreak | mret | csr =>
      simp [execute, dataAccess?]

/-- After a step the bus remembers what it remembered before, and whether the instruction reached a
device. -/
theorem step_touched (bus : Bus δ) :
    (hart.step bus).bus.touched = (bus.touched || hart.reachesDevice bus) := by
  have flag := bus.read_touched hart.pc .word .fetch
  simp only [step, reachesDevice]
  cases (bus.read hart.pc .word .fetch).result with
  | error cause => simpa using flag
  | ok value =>
      simp only [executeWord]
      cases Instruction.ofWord? value.toUInt32 with
      | none => simpa using flag
      | some instruction =>
          simp only [execute_touched, flag, Bool.or_assoc, Option.bind_some]

theorem step_touched_of_clear {bus : Bus δ} (clear : bus.touched = false) :
    (hart.step bus).bus.touched = hart.reachesDevice bus := by
  rw [step_touched, clear, Bool.false_or]

end Hart

end HartScope
