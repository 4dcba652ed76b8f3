import HartScope.Device.Peripheral
import HartScope.Hart.Step
import HartScope.Proofs.Bus.Transaction

/-!
Faults are precise.  An instruction that fails does so before its first write: the hart, RAM and the
devices are as they were, except that the word may have been read from a device.
-/

namespace HartScope

theorem ok_of_toOption {ε α : Type} {result : Except ε α} {value : α}
    (success : result.toOption = some value) : result = .ok value := by
  cases result with
  | error cause => cases success
  | ok other => exact congrArg Except.ok (Option.some.inj success)

namespace Hart

variable {δ : Type} [Device δ] {hart : Hart} {bus : Bus δ} {fault : Fault}

theorem executeLoad_error {form : LoadForm} {rd rs1 : Reg} {imm : Int}
    (failed : (hart.executeLoad bus form rd rs1 imm).result = .error fault) :
    hart.executeLoad bus form rd rs1 imm = ⟨.error fault, hart, bus, []⟩ ∧
      fault.pc = hart.pc := by
  unfold executeLoad at failed ⊢
  cases answer : (bus.read (hart.address rs1 imm) form.width .read).result with
  | ok value => simp [answer] at failed
  | error cause =>
      simp only [answer, Except.error.injEq] at failed
      subst failed
      simp [Bus.read_error answer, Fault.pc]

theorem executeStore_error {width : Width} {rs1 rs2 : Reg} {imm : Int}
    (failed : (hart.executeStore bus width rs1 rs2 imm).result = .error fault) :
    hart.executeStore bus width rs1 rs2 imm = ⟨.error fault, hart, bus, []⟩ ∧
      fault.pc = hart.pc := by
  unfold executeStore at failed ⊢
  cases answer : (bus.write (hart.address rs1 imm) width (hart.get rs2 &&& width.mask)).result with
  | ok _ => simp [answer] at failed
  | error cause =>
      simp only [answer, Except.error.injEq] at failed
      subst failed
      simp [Bus.write_error answer, Fault.pc]

omit [Device δ] in
theorem executeEnvironmentCall_error
    (failed : (hart.executeEnvironmentCall bus).result = .error fault) :
    hart.executeEnvironmentCall bus = ⟨.error fault, hart, bus, []⟩ ∧ fault.pc = hart.pc := by
  unfold executeEnvironmentCall at failed ⊢
  split at failed
  · contradiction
  · rename_i unsupported
    cases failed
    simp [unsupported, Fault.pc]

/-- Only loads, stores and environment calls can fail once a word has been decoded. -/
theorem execute_error {instruction : Instruction}
    (failed : (hart.execute bus instruction).result = .error fault) :
    hart.execute bus instruction = ⟨.error fault, hart, bus, []⟩ ∧ fault.pc = hart.pc := by
  cases instruction with
  | load form rd rs1 imm => exact executeLoad_error failed
  | store width rs1 rs2 imm => exact executeStore_error failed
  | ecall => exact executeEnvironmentCall_error failed
  | lui | auipc | jal | jalr | branch | opImm | op | fence | ebreak | mret | csr => cases failed

theorem executeWord_error {word : UInt32}
    (failed : (hart.executeWord bus word).result = .error fault) :
    hart.executeWord bus word = ⟨.error fault, hart, bus, []⟩ ∧ fault.pc = hart.pc := by
  unfold executeWord at failed ⊢
  cases decoded : Instruction.ofWord? word with
  | none =>
      rw [decoded] at failed
      cases failed
      exact ⟨rfl, rfl⟩
  | some instruction =>
      rw [decoded] at failed
      exact execute_error failed

theorem step_of_fetch_error {cause : OutOfBound}
    (refused : (bus.read hart.pc .word .fetch).result = .error cause) :
    hart.step bus =
      { result := .error (.memory hart.pc cause)
        hart := hart
        bus := bus
        output := []
        context := .unfetched hart.pc } := by
  simp [step, Bus.read_error refused]

theorem step_of_fetch {value : UInt64}
    (served : (bus.read hart.pc .word .fetch).result = .ok value) :
    (hart.step bus).toCompletion =
      let fetch := bus.read hart.pc .word .fetch
      let done := hart.executeWord fetch.bus value.toUInt32
      { done with output := fetch.output ++ done.output } := by
  simp [step, served]

/-- A step that fails leaves the hart, and leaves the bus as the fetch left it. -/
theorem step_error (failed : (hart.step bus).result = .error fault) :
    (hart.step bus).toCompletion =
        ⟨.error fault, hart, (bus.read hart.pc .word .fetch).bus,
          (bus.read hart.pc .word .fetch).output⟩ ∧
      fault.pc = hart.pc := by
  cases answer : (bus.read hart.pc .word .fetch).result with
  | error cause =>
      rw [step_of_fetch_error answer] at failed ⊢
      cases failed
      rw [Bus.read_error answer]
      exact ⟨rfl, rfl⟩
  | ok value =>
      have outcome := step_of_fetch answer
      rw [outcome] at failed ⊢
      obtain ⟨done, located⟩ := executeWord_error failed
      simp only [done, List.append_nil, true_and]
      exact located

/-- A step that fails commits nothing.  Its fault carries the address of the instruction, and the
only access that can have reached a device is the read of the word itself.  Devices of every kind are
meant, also those whose state counts each access. -/
theorem step_error_commits_nothing (failed : (hart.step bus).result = .error fault) :
    fault.pc = hart.pc ∧
      (hart.step bus).hart = hart ∧
      (hart.step bus).bus.ram = bus.ram ∧
      ((hart.step bus).bus = bus ∧ (hart.step bus).output = [] ∨
        ∃ position device,
          bus.ram.read? hart.pc .word = none ∧
          bus.devices[position]? = some device ∧
          (Device.window device).covers hart.pc Width.word.bytes = true ∧
          (hart.step bus).bus =
            bus.served position
              (Device.read device .word (hart.pc - (Device.window device).start)).2 ∧
          (hart.step bus).output = (bus.deviceRead hart.pc .word position device).output) := by
  obtain ⟨outcome, located⟩ := step_error failed
  rw [outcome]
  obtain ⟨value, _, shape⟩ | ⟨_, _, shape⟩ | ⟨position, device, outside, found, shape⟩ :=
    bus.read_cases hart.pc .word .fetch
  · rw [shape]
    exact ⟨located, rfl, rfl, .inl ⟨rfl, rfl⟩⟩
  · rw [shape]
    exact ⟨located, rfl, rfl, .inl ⟨rfl, rfl⟩⟩
  · rw [shape]
    obtain ⟨standing, covered⟩ := Bus.target?_claims found
    exact ⟨located, rfl, rfl, .inr ⟨position, device, outside, standing, covered, rfl, rfl⟩⟩

/-- A hart that runs into the serial line reads a zero word from it, and only that access remains. -/
theorem word_from_serial_commits_nothing :
    let bus : Bus Peripheral := { ram := Memory.new resetVector 64, devices := Peripheral.defaults }
    let hart := reset Peripheral.serialBase
    (hart.step bus).result = .error (.invalidInstruction Peripheral.serialBase 0) ∧
      (hart.step bus).hart = hart ∧ (hart.step bus).bus.ram = bus.ram ∧
      (hart.step bus).bus.touched = true := by
  intro bus hart
  have answer : (bus.read hart.pc .word .fetch).result = .ok 0 :=
    ok_of_toOption (by decide +kernel)
  have undecodable : Instruction.ofWord? (UInt64.toUInt32 0) = none := by decide
  have failed : (hart.step bus).result = .error (.invalidInstruction Peripheral.serialBase 0) := by
    rw [step_of_fetch answer]
    simp only [executeWord, undecodable]
    rfl
  have touched : (hart.step bus).bus.touched = true := by decide +kernel
  obtain ⟨_, unchanged, ram, _⟩ := step_error_commits_nothing failed
  exact ⟨failed, unchanged, ram, touched⟩

end Hart

end HartScope
