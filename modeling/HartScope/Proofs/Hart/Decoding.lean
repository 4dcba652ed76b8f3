import HartScope.Device.Peripheral
import HartScope.Proofs.Hart.PreciseFaults
import HartScope.Proofs.Isa.InstructionSet

/-!
What the fetched word decides about a step.  It alone tells whether the instruction is invalid and
whether it halts the program; a trap that nothing can service takes an environment call.
-/

namespace HartScope

namespace Instruction

variable {word : UInt32}

theorem ofPrivileged?_of_ofWord? {instruction : Instruction}
    (privileged : instruction ∈ [ecall, ebreak, mret])
    (decoded : ofWord? word = some instruction) : ofPrivileged? word = some instruction := by
  obtain ⟨opcode, _, found⟩ := Option.bind_eq_some_iff.mp decoded
  cases opcode with
  | system =>
      simp only [ofSystem?] at found
      split at found
      · exact found
      · simp only [Option.bind_eq_bind, Option.bind_eq_some_iff] at found
        grind
  | lui | auipc | jal | jalr | branch | load | store | opImm | opImm32 | op | op32 | miscMem =>
      simp only [ofImmediate?, ofRegister?, Option.map_eq_some_iff] at found
      grind

/-- An instruction of the privileged group is encoded by one word only. -/
theorem ofWord?_privileged {instruction : Instruction} {code : UInt32}
    (listed : (instruction, code) ∈
      [(ecall, ecallWord), (ebreak, ebreakWord), (mret, mretWord)]) :
    ofWord? word = some instruction ↔ word = code := by
  constructor
  · intro decoded
    have privileged := ofPrivileged?_of_ofWord? (by grind) decoded
    unfold ofPrivileged? at privileged
    grind
  · rintro rfl
    simp only [List.mem_cons, Prod.mk.injEq, List.not_mem_nil, or_false] at listed
    obtain ⟨rfl, rfl⟩ | ⟨rfl, rfl⟩ | ⟨rfl, rfl⟩ := listed <;> rfl

theorem ofWord?_ebreak : ofWord? word = some ebreak ↔ word = ebreakWord :=
  ofWord?_privileged (by simp)

theorem ofWord?_ecall : ofWord? word = some ecall ↔ word = ecallWord :=
  ofWord?_privileged (by simp)

end Instruction

namespace Hart

variable {δ : Type} [Device δ]

/-- The word at the program counter, if something answers there. -/
def fetched? (hart : Hart) (bus : Bus δ) : Option UInt32 :=
  (bus.read hart.pc .word .fetch).result.toOption.map UInt64.toUInt32

/-- An executed instruction retires, halts the program, or is refused by the bus or for want of a
handler. -/
theorem execute_cases (hart : Hart) (bus : Bus δ) (instruction : Instruction) :
    ((hart.execute bus instruction).result = .ok .next ∧ instruction ≠ .ebreak ∧
      (instruction = .ecall → hart.trapSupported = true)) ∨
    (instruction = .ebreak ∧
      (hart.execute bus instruction).result = .ok (.halt (hart.get Reg.a0)) ∧
      (hart.execute bus instruction).hart = hart.advance) ∨
    (instruction = .ecall ∧ hart.trapSupported = false ∧
      (hart.execute bus instruction).result =
        .error (.unsupportedTrap hart.pc (hart.get Reg.a7) hart.csrs.mtvec)) ∨
    (instruction ≠ .ecall ∧ instruction ≠ .ebreak ∧
      ∃ cause, (hart.execute bus instruction).result = .error (.memory hart.pc cause)) := by
  cases instruction with
  | load form rd rs1 imm =>
      simp only [execute, executeLoad]
      split
      · exact .inr (.inr (.inr ⟨nofun, nofun, _, rfl⟩))
      · exact .inl ⟨rfl, nofun, nofun⟩
  | store width rs1 rs2 imm =>
      simp only [execute, executeStore]
      split
      · exact .inr (.inr (.inr ⟨nofun, nofun, _, rfl⟩))
      · exact .inl ⟨rfl, nofun, nofun⟩
  | ecall =>
      cases supported : hart.trapSupported with
      | true =>
          exact .inl ⟨by simp [execute, executeEnvironmentCall, supported], nofun, fun _ => rfl⟩
      | false =>
          exact .inr (.inr (.inl ⟨rfl, rfl, by simp [execute, executeEnvironmentCall, supported]⟩))
  | ebreak => exact .inr (.inl ⟨rfl, rfl, rfl⟩)
  | lui | auipc | jal | jalr | branch | opImm | op | fence | mret | csr =>
      exact .inl ⟨rfl, nofun, nofun⟩

/-- A step finds no word, or a word that does not decode, or executes an instruction. -/
theorem step_cases (hart : Hart) (bus : Bus δ) :
    (hart.fetched? bus = none ∧ ∃ cause, (hart.step bus).result = .error (.memory hart.pc cause)) ∨
    (∃ word, hart.fetched? bus = some word ∧ Instruction.ofWord? word = none ∧
      (hart.step bus).result = .error (.invalidInstruction hart.pc word)) ∨
    (∃ (word : UInt32) (instruction : Instruction) (after : Bus δ),
      hart.fetched? bus = some word ∧ Instruction.ofWord? word = some instruction ∧
      (hart.step bus).result = (hart.execute after instruction).result ∧
      (hart.step bus).hart = (hart.execute after instruction).hart) := by
  unfold fetched?
  cases answer : (bus.read hart.pc .word .fetch).result with
  | error cause => exact .inl ⟨rfl, cause, by rw [step_of_fetch_error answer]⟩
  | ok value =>
      have outcome := step_of_fetch answer
      cases decoded : Instruction.ofWord? value.toUInt32 with
      | none => exact .inr (.inl ⟨_, rfl, decoded, by rw [outcome]; simp [executeWord, decoded]⟩)
      | some instruction =>
          refine .inr (.inr ⟨_, instruction, (bus.read hart.pc .word .fetch).bus, rfl, decoded, ?_⟩)
          simp [outcome, executeWord, decoded]

variable {hart : Hart} {bus : Bus δ} {pc value selector vector : UInt64} {word : UInt32}

theorem step_halt_iff :
    (hart.step bus).result = .ok (.halt value) ↔
      hart.fetched? bus = some Instruction.ebreakWord ∧ value = hart.get Reg.a0 := by
  obtain ⟨unfetched, _, refused⟩ | ⟨word, fetched, undecoded, invalid⟩ |
    ⟨word, instruction, after, fetched, decoded, result, _⟩ := hart.step_cases bus
  · simp [unfetched, refused]
  · have other : word ≠ Instruction.ebreakWord := by
      rintro rfl
      contradiction
    simp [fetched, invalid, other]
  · rw [result, fetched, Option.some.injEq, ← Instruction.ofWord?_ebreak, decoded]
    obtain ⟨retired, other, _⟩ | ⟨rfl, halted, _⟩ | ⟨rfl, _, trapped⟩ | ⟨_, other, _, refused⟩ :=
      hart.execute_cases after instruction
    · simp [retired, other]
    · simp [halted, eq_comm]
    · simp [trapped]
    · simp [refused, other]

theorem step_halt_advances (halted : (hart.step bus).result = .ok (.halt value)) :
    (hart.step bus).hart = hart.advance := by
  obtain ⟨_, _, refused⟩ | ⟨_, _, _, invalid⟩ | ⟨_, instruction, after, _, _, result, registers⟩ :=
    hart.step_cases bus
  · simp [refused] at halted
  · simp [invalid] at halted
  · rw [result] at halted
    obtain ⟨retired, _⟩ | ⟨_, _, advanced⟩ | ⟨_, _, trapped⟩ | ⟨_, _, _, refused⟩ :=
      hart.execute_cases after instruction
    · simp [retired] at halted
    · exact registers.trans advanced
    · simp [trapped] at halted
    · simp [refused] at halted

theorem step_trap_iff :
    (hart.step bus).result = .error (.unsupportedTrap pc selector vector) ↔
      hart.fetched? bus = some Instruction.ecallWord ∧ hart.trapSupported = false ∧
        pc = hart.pc ∧ selector = hart.get Reg.a7 ∧ vector = hart.csrs.mtvec := by
  obtain ⟨unfetched, _, refused⟩ | ⟨word, fetched, undecoded, invalid⟩ |
    ⟨word, instruction, after, fetched, decoded, result, _⟩ := hart.step_cases bus
  · simp [unfetched, refused]
  · have other : word ≠ Instruction.ecallWord := by
      rintro rfl
      contradiction
    simp [fetched, invalid, other]
  · rw [result, fetched, Option.some.injEq, ← Instruction.ofWord?_ecall, decoded]
    obtain ⟨retired, _, supported⟩ | ⟨rfl, halted, _⟩ | ⟨rfl, unsupported, trapped⟩ |
      ⟨other, _, _, refused⟩ := hart.execute_cases after instruction
    · grind
    · simp [halted]
    · simp [trapped, unsupported, eq_comm]
    · simp [refused, other]

/-- An instruction is invalid if the word at the program counter encodes none of the set, and for no
other reason.  The one exception is a memory ordering word with a reserved minor opcode, which is
taken for a fence. -/
theorem step_invalid_iff :
    (hart.step bus).result = .error (.invalidInstruction pc word) ↔
      pc = hart.pc ∧ hart.fetched? bus = some word ∧ ¬Documented word ∧ ¬ReservedFence word := by
  rw [← not_or, ← Instruction.ofWord?_isSome_iff]
  obtain ⟨unfetched, _, refused⟩ | ⟨found, fetched, undecoded, invalid⟩ |
    ⟨found, instruction, after, fetched, decoded, result, _⟩ := hart.step_cases bus
  · simp [unfetched, refused]
  · grind
  · rw [result, fetched]
    have valid : ¬(some found = some word ∧ ¬(Instruction.ofWord? word).isSome) := by
      rintro ⟨⟨⟩, undecoded⟩
      simp [decoded] at undecoded
    obtain ⟨retired, _⟩ | ⟨_, halted, _⟩ | ⟨_, _, trapped⟩ | ⟨_, _, _, refused⟩ :=
      hart.execute_cases after instruction <;> simp_all

/-- RAM that holds one word, with the default devices. -/
def wordBus (word : UInt32) : Bus Peripheral where
  ram := ((Memory.new resetVector 16).load? resetVector (LittleEndian.wordBytes word)).getD
    (Memory.new resetVector 16)
  devices := Peripheral.defaults

/-- A memory ordering word with minor opcode two belongs to no instruction, and retires. -/
theorem reserved_fence_retires :
    ¬∀ (hart : Hart) (bus : Bus Peripheral) (word : UInt32), hart.fetched? bus = some word →
      ((hart.step bus).result = .error (.invalidInstruction hart.pc word) ↔ ¬Documented word) := by
  intro refuses
  have fetched : (reset resetVector).fetched? (wordBus 0x0000200F) = some 0x0000200F := by
    decide +kernel
  have refused := (refuses _ _ _ fetched).mpr (by decide +kernel)
  have retired : ((reset resetVector).step (wordBus 0x0000200F)).result.toBool = true := by
    decide +kernel
  rw [refused] at retired
  contradiction

end Hart

end HartScope
