import HartScope.Proofs.Hart.CsrAccess

/-!
The frame of one instruction: what it may change, and what it leaves alone.  An instruction has at
most one destination, a few kinds touch CSRs, a store covers some bytes of RAM, and of the devices
only those change that serve the fetch or the access of a load or store.
-/

namespace HartScope

namespace Registers

/-- Writing a register leaves the cells of all others, and that of register zero. -/
theorem set_cell (registers : Registers) {r other : Reg}
    (spared : other = Reg.zero ∨ other ≠ r) (value : UInt64) :
    (registers.set r value).snapshot.get other = registers.snapshot.get other := by
  by_cases target : r.val = 0
  · simp [set, write, target]
  · have apart : r.val ≠ other.val := by
      rcases spared with rfl | distinct
      · exact target
      · exact fun same => distinct (Fin.ext same.symm)
    simp only [set, write, target, cellOf_val, if_false]
    exact Vector.getElem_set_ne r.isLt other.isLt apart

end Registers

namespace Bus

variable {δ : Type} [Device δ]

/-- Position of the device that serves an access, if RAM does not serve it. -/
def server? (bus : Bus δ) (address : UInt64) (width : Width) : Option Nat :=
  match bus.ram.read? address width with
  | some _ => none
  | none => (bus.target? address width.bytes).map Prod.fst

/-- From one to the other, the devices at these positions have served accesses in this order.
Nothing else has happened to a device, and RAM has stayed in its place. -/
structure Attended (servers : List Nat) (before after : Bus δ) : Prop where
  base : after.ram.base = before.ram.base
  size : after.ram.size = before.ram.size
  count : after.devices.length = before.devices.length
  others : ∀ position ∉ servers, after.devices[position]? = before.devices[position]?
  hint : after.hint = servers.getLastD before.hint
  touched : after.touched = (before.touched || !servers.isEmpty)

section

variable {before between after : Bus δ} {early late : List Nat}

omit [Device δ]

theorem Attended.refl (bus : Bus δ) : Attended [] bus bus :=
  ⟨rfl, rfl, rfl, fun _ _ => rfl, rfl, (Bool.or_false _).symm⟩

theorem Attended.trans (first : Attended early before between)
    (second : Attended late between after) : Attended (early ++ late) before after where
  base := second.base.trans first.base
  size := second.size.trans first.size
  count := second.count.trans first.count
  others position absent := by
    rw [List.mem_append, not_or] at absent
    rw [second.others position absent.2, first.others position absent.1]
  hint := by
    rw [second.hint, first.hint, List.getLastD_eq_getLast?, List.getLastD_eq_getLast?,
      List.getLastD_eq_getLast?, List.getLast?_append]
    cases late.getLast? <;> rfl
  touched := by
    rw [second.touched, first.touched]
    cases early <;> simp

theorem attended_served (bus : Bus δ) (position : Nat) (device : δ) :
    Attended [position] bus (bus.served position device) where
  base := rfl
  size := rfl
  count := List.length_set
  others other absent := by
    rw [List.mem_singleton] at absent
    exact List.getElem?_set_ne (Ne.symm absent)
  hint := rfl
  touched := (Bool.or_true _).symm

end

theorem read_attended (bus : Bus δ) (address : UInt64) (width : Width) (kind : AccessKind) :
    Attended (bus.server? address width).toList bus (bus.read address width kind).bus := by
  unfold server?
  obtain ⟨_, inRam, shape⟩ | ⟨outside, unclaimed, shape⟩ | ⟨position, _, outside, found, shape⟩ :=
    bus.read_cases address width kind
  · rw [shape, inRam]
    exact .refl bus
  · rw [shape, outside, unclaimed]
    exact .refl bus
  · rw [shape, outside, found]
    exact bus.attended_served position _

theorem write_attended (bus : Bus δ) (address : UInt64) (width : Width) (value : UInt64) :
    Attended (bus.server? address width).toList bus (bus.write address width value).bus := by
  unfold server?
  obtain ⟨_, inRam, shape⟩ | ⟨outside, unclaimed, shape⟩ | ⟨position, _, outside, found, shape⟩ :=
    bus.write_cases address width value
  · have sameRange := bus.ram.write?_isSome address width value
    rw [inRam] at sameRange
    obtain ⟨_, present⟩ := Option.isSome_iff_exists.mp sameRange.symm
    obtain ⟨base, size⟩ := Memory.write?_place inRam
    rw [shape, present]
    exact ⟨base, size, rfl, fun _ _ => rfl, rfl, (Bool.or_false _).symm⟩
  · rw [shape, Memory.write?_eq_none_iff.mp outside, unclaimed]
    exact .refl bus
  · rw [shape, Memory.write?_eq_none_iff.mp outside, found]
    exact bus.attended_served position _

end Bus

namespace Instruction

/-- The destination of an instruction. -/
def rd? : Instruction → Option Reg
  | lui rd _ | auipc rd _ | jal rd _ | jalr rd _ _ | load _ rd _ _ | opImm _ _ rd _ _
  | op _ _ rd _ _ | csr _ _ rd _ => some rd
  | branch .. | store .. | fence | ecall | ebreak | mret => none

/-- The CSRs that an instruction may change. -/
def changedCsrs : Instruction → List Csr
  | csr _ register _ _ => [register]
  | ecall => [.mepc, .mcause, .mstatus]
  | mret => [.mstatus]
  | lui .. | auipc .. | jal .. | jalr .. | branch .. | load .. | store .. | opImm .. | op .. | fence
  | ebreak => []

variable {word : UInt32} {instruction : Instruction}

/-- The destination is named by the same bits in every word. -/
theorem rd_of_ofWord? (decoded : ofWord? word = some instruction) :
    ∀ rd ∈ instruction.rd?, rd = Word.rd word := by
  obtain ⟨opcode, _, found⟩ := Option.bind_eq_some_iff.mp decoded
  cases opcode with
  | lui | auipc | jal | miscMem =>
      cases found
      simp [rd?, Fields.ofWord]
  | jalr =>
      dsimp only at found
      split at found <;> cases found
      simp [rd?, Fields.ofWord]
  | branch | load | store | opImm | opImm32 | op | op32 =>
      obtain ⟨_, _, rfl⟩ := Option.map_eq_some_iff.mp found
      simp [rd?, Fields.ofWord]
  | system =>
      rcases ofSystem?_cases found with privileged | ⟨_, _, _, _, _, _, rfl⟩
      · have listed := ofPrivileged?_cases privileged
        simp only [List.mem_cons, Prod.mk.injEq, List.not_mem_nil, or_false] at listed
        rcases listed with ⟨_, rfl⟩ | ⟨_, rfl⟩ | ⟨_, rfl⟩ <;> simp [rd?]
      · simp [rd?, Fields.ofWord]

theorem csr_of_ofWord? {action : CsrAction} {register : Csr} {rd : Reg} {source : CsrSource}
    (decoded : ofWord? word = some (csr action register rd source)) :
    register.address = Word.csr word := by
  obtain ⟨opcode, _, found⟩ := Option.bind_eq_some_iff.mp decoded
  cases opcode with
  | lui | auipc | jal | miscMem => cases found
  | jalr =>
      dsimp only at found
      split at found <;> cases found
  | branch | load | store | opImm | opImm32 | op | op32 =>
      obtain ⟨_, _, other⟩ := Option.map_eq_some_iff.mp found
      cases other
  | system =>
      rcases ofSystem?_cases found with privileged | ⟨_, _, _, _, known, _, same⟩
      · have listed := ofPrivileged?_cases privileged
        simp at listed
      · cases same
        exact Csr.address_of_ofAddress? known

end Instruction

namespace Hart

variable {δ : Type} [Device δ]

/-- The instruction continues somewhere else than behind itself: it is a jump, a trap entry or
return, or a branch that is taken. -/
def Redirects (hart : Hart) : Instruction → Prop
  | .branch condition rs1 rs2 _ => condition.holds (hart.get rs1) (hart.get rs2) = true
  | .jal .. | .jalr .. | .ecall | .mret => True
  | .lui .. | .auipc .. | .load .. | .store .. | .opImm .. | .op .. | .fence | .ebreak
  | .csr .. => False

/-- What an instruction leaves of a hart, and where it goes on. -/
structure Leaves (before : Hart) (instruction : Instruction) (after : Hart) : Prop where
  cells : ∀ r, r = Reg.zero ∨ instruction.rd? ≠ some r →
    after.registers.snapshot.get r = before.registers.snapshot.get r
  csrs : ∀ csr, csr ∉ instruction.changedCsrs ∨ Csrs.ReadOnly csr →
    after.csrs.get csr = before.csrs.get csr
  pc : ¬before.Redirects instruction → after.pc = before.pc + 4

theorem set_spares (hart : Hart) {instruction : Instruction} {rd r : Reg}
    (written : instruction.rd? = some rd) (spared : r = Reg.zero ∨ instruction.rd? ≠ some r)
    (value : UInt64) :
    (hart.registers.set rd value).snapshot.get r = hart.registers.snapshot.get r := by
  apply Registers.set_cell
  rw [written, ne_eq, Option.some.injEq] at spared
  exact spared.imp_right Ne.symm

theorem execute_leaves (hart : Hart) (bus : Bus δ) {instruction : Instruction}
    {retirement : Retirement} (retired : (hart.execute bus instruction).result = .ok retirement) :
    hart.Leaves instruction (hart.execute bus instruction).hart := by
  cases instruction with
  | lui rd | auipc rd | opImm _ _ rd | op _ _ rd =>
      exact ⟨fun r spared => hart.set_spares rfl spared _, fun _ _ => rfl, fun _ => rfl⟩
  | jal rd | jalr rd =>
      exact ⟨fun r spared => hart.set_spares rfl spared _, fun _ _ => rfl, absurd trivial⟩
  | csr action register rd source =>
      refine ⟨fun r spared => hart.set_spares rfl spared _, ?_, fun _ => rfl⟩
      intro csr spared
      by_cases target : csr = register
      -- A read-only register is spared although it is addressed.
      · subst target
        have readOnly : Csrs.ReadOnly csr := by simpa [Instruction.changedCsrs] using spared
        exact congrArg (Csrs.get · csr) (hart.updatedCsrs_readOnly action readOnly source)
      · exact hart.updatedCsrs_get_ne action target source
  | load form rd rs1 imm =>
      simp only [execute, executeLoad] at retired ⊢
      split at retired
      · cases retired
      · exact ⟨fun r spared => hart.set_spares rfl spared _, fun _ _ => rfl, fun _ => rfl⟩
  | store width rs1 rs2 imm =>
      simp only [execute, executeStore] at retired ⊢
      split at retired
      · cases retired
      · exact ⟨fun _ _ => rfl, fun _ _ => rfl, fun _ => rfl⟩
  | branch condition rs1 rs2 imm =>
      simp only [execute]
      split
      · rename_i taken
        exact ⟨fun _ _ => rfl, fun _ _ => rfl, absurd taken⟩
      · exact ⟨fun _ _ => rfl, fun _ _ => rfl, fun _ => rfl⟩
  | ecall =>
      simp only [execute, executeEnvironmentCall] at retired ⊢
      cases supported : hart.trapSupported with
      | false => simp [supported] at retired
      | true =>
          refine ⟨fun _ _ => rfl, ?_, absurd trivial⟩
          intro csr spared
          cases csr with
          | mstatus | mepc | mcause => simp [Instruction.changedCsrs, Csrs.ReadOnly] at spared
          | misa | mie | mtvec | mscratch | mtval | mip | mhartid => rfl
  | mret =>
      refine ⟨fun _ _ => rfl, ?_, absurd trivial⟩
      intro csr spared
      cases csr with
      | mstatus => simp [Instruction.changedCsrs, Csrs.ReadOnly] at spared
      | misa | mie | mtvec | mscratch | mepc | mcause | mtval | mip | mhartid => rfl
  | fence | ebreak => exact ⟨fun _ _ => rfl, fun _ _ => rfl, fun _ => rfl⟩

theorem execute_attended (hart : Hart) (bus : Bus δ) (instruction : Instruction) :
    Bus.Attended ((hart.dataAccess? instruction).bind fun access =>
      bus.server? access.1 access.2).toList bus (hart.execute bus instruction).bus := by
  cases instruction with
  | load form rd rs1 imm =>
      have attended := bus.read_attended (hart.address rs1 imm) form.width .read
      simp only [execute, executeLoad]
      split <;> exact attended
  | store width rs1 rs2 imm =>
      have attended := bus.write_attended (hart.address rs1 imm) width (hart.get rs2 &&& width.mask)
      simp only [execute, executeStore]
      split <;> exact attended
  | ecall =>
      simp only [execute, executeEnvironmentCall]
      split <;> exact .refl bus
  | lui | auipc | jal | jalr | branch | opImm | op | fence | ebreak | mret | csr => exact .refl bus

/-- The devices that the accesses of the next step are served by: the word, and what a load or store
accesses. -/
def servers (hart : Hart) (bus : Bus δ) : List Nat :=
  (bus.server? hart.pc .word).toList ++
    (((hart.instruction? bus).bind hart.dataAccess?).bind fun access =>
      (bus.read hart.pc .word .fetch).bus.server? access.1 access.2).toList

theorem step_attended (hart : Hart) (bus : Bus δ) :
    Bus.Attended (hart.servers bus) bus (hart.step bus).bus := by
  have fetching := bus.read_attended hart.pc .word .fetch
  rw [servers]
  cases found : hart.instruction? bus with
  | none =>
      obtain ⟨_, failed⟩ := step_of_no_instruction found
      rw [congrArg Completion.bus failed]
      simpa using fetching
  | some instruction =>
      rw [(step_of_instruction found).2.2]
      exact fetching.trans (hart.execute_attended _ instruction)

/-- A step that retires has fetched a word, decoded it and executed the instruction. -/
theorem step_leaves {hart : Hart} {bus : Bus δ} {retirement : Retirement}
    (retired : (hart.step bus).result = .ok retirement) :
    ∃ word instruction, hart.fetched? bus = some word ∧
      Instruction.ofWord? word = some instruction ∧
      hart.Leaves instruction (hart.step bus).hart := by
  obtain ⟨_, _, refused⟩ | ⟨_, _, _, invalid⟩ |
    ⟨word, instruction, after, fetched, decoded, result, same⟩ := hart.step_cases bus
  · simp [refused] at retired
  · simp [invalid] at retired
  · refine ⟨word, instruction, fetched, decoded, ?_⟩
    rw [same]
    exact hart.execute_leaves after (result.symm.trans retired)

theorem step_continuation {hart : Hart} {bus : Bus δ} {retirement : Retirement}
    (retired : (hart.step bus).result = .ok retirement) :
    (hart.step bus).context.continuation = (hart.step bus).hart.pc := by
  cases answer : (bus.read hart.pc .word .fetch).result with
  | error cause => simp [step_of_fetch_error answer] at retired
  | ok value =>
      simp only [step, answer] at retired ⊢
      simp only [StepContext.fetched, retired]

/-- All that a step which retires this instruction may have changed. -/
structure StepFrame (hart : Hart) (bus : Bus δ) (word : UInt32) (instruction : Instruction) :
    Prop where
  registers : ∀ r, (hart.step bus).hart.registers.snapshot.get r ≠ hart.registers.snapshot.get r →
    r ≠ Reg.zero ∧ r = Word.rd word ∧ instruction.rd? = some r
  csrs : ∀ csr, (hart.step bus).hart.csrs.get csr ≠ hart.csrs.get csr →
    csr ∈ instruction.changedCsrs
  addressed : ∀ action register rd source, instruction = .csr action register rd source →
    register.address = Word.csr word
  pc : ¬hart.Redirects instruction → (hart.step bus).hart.pc = hart.pc + 4
  continuation : (hart.step bus).context.continuation = (hart.step bus).hart.pc
  ram : ∀ position, (hart.step bus).bus.ram.at? position ≠ bus.ram.at? position →
    ∃ width rs1 rs2 imm, instruction = .store width rs1 rs2 imm ∧
      bus.ram.Holds (hart.address rs1 imm) width.bytes ∧
      (hart.address rs1 imm).toNat ≤ position ∧
      position < (hart.address rs1 imm).toNat + width.bytes
  devices : Bus.Attended (hart.servers bus) bus (hart.step bus).bus

/-- Only a store changes RAM, and only the bytes that it covers. -/
theorem step_changed_byte {hart : Hart} {bus : Bus δ} {instruction : Instruction}
    (found : hart.instruction? bus = some instruction) {position : Nat}
    (changed : (hart.step bus).bus.ram.at? position ≠ bus.ram.at? position) :
    ∃ width rs1 rs2 imm, instruction = .store width rs1 rs2 imm ∧
      bus.ram.Holds (hart.address rs1 imm) width.bytes ∧
      (hart.address rs1 imm).toNat ≤ position ∧
      position < (hart.address rs1 imm).toNat + width.bytes := by
  rw [step_ram, stored?, found, Option.bind_some] at changed
  cases instruction with
  | store width rs1 rs2 imm =>
      refine ⟨width, rs1, rs2, imm, rfl, ?_⟩
      by_cases inside : bus.ram.contains (hart.address rs1 imm) width.bytes = true
      · refine ⟨(bus.ram.offset?_isSome_iff _ _).mp inside, ?_⟩
        rw [storeOf?, if_pos inside, Option.bind_some, Store.byteAt?] at changed
        by_cases covered : (hart.address rs1 imm).toNat ≤ position ∧
            position < (hart.address rs1 imm).toNat + width.bytes
        · exact covered
        · rw [if_neg covered] at changed
          exact absurd rfl changed
      · rw [storeOf?, if_neg inside] at changed
        exact absurd rfl changed
  | lui | auipc | jal | jalr | branch | load | opImm | op | fence | ecall | ebreak | mret | csr =>
      exact absurd rfl changed

/-- A step that retires changes nothing but what its instruction is entitled to, and goes on behind
it unless the instruction redirects it.  No step moves RAM or changes its size. -/
theorem step_stays_in_frame (hart : Hart) (bus : Bus δ) :
    (∀ retirement, (hart.step bus).result = .ok retirement →
      ∃ word instruction, hart.fetched? bus = some word ∧
        Instruction.ofWord? word = some instruction ∧ hart.StepFrame bus word instruction) ∧
      (hart.step bus).bus.ram.base = bus.ram.base ∧
      (hart.step bus).bus.ram.size = bus.ram.size := by
  have attended := hart.step_attended bus
  refine ⟨?_, attended.base, attended.size⟩
  intro retirement retired
  obtain ⟨word, instruction, fetched, decoded, leaves⟩ := step_leaves retired
  have found : hart.instruction? bus = some instruction := by
    rw [instruction?, fetched, Option.bind_some, decoded]
  refine ⟨word, instruction, fetched, decoded, ?_⟩
  exact
    { registers := by
        intro r changed
        have written := not_or.mp (mt (leaves.cells r) changed)
        have destination : instruction.rd? = some r := not_not.mp written.2
        exact ⟨written.1, Instruction.rd_of_ofWord? decoded r destination, destination⟩
      csrs := by
        intro csr changed
        have written := not_or.mp (mt (leaves.csrs csr) changed)
        exact not_not.mp written.1
      addressed := by
        rintro action register rd source rfl
        exact Instruction.csr_of_ofWord? decoded
      pc := leaves.pc
      continuation := step_continuation retired
      ram := fun _ => step_changed_byte found
      devices := attended }

/-- A hart about to send a letter to the serial port. -/
def sender : Hart where
  registers := (({} : Registers).set Reg.a0 Peripheral.serialBase).set Reg.a7 0x41
  pc := resetVector

/-- The word of `sb a7, 0(a0)`. -/
def sendWord : UInt32 := 0x01150023

theorem sender_step :
    (sender.step (wordBus sendWord)).result.toOption = some .next ∧
      sender.servers (wordBus sendWord) = [0] ∧
      sender.fetched? (wordBus sendWord) = some sendWord ∧
      Instruction.ofWord? sendWord = some (.store .byte Reg.a0 Reg.a7 0) := by
  decide +kernel

theorem serial_store_stays_in_frame :
    (sender.step (wordBus sendWord)).result.toOption = some .next ∧
      sender.servers (wordBus sendWord) = [0] ∧
      sender.StepFrame (wordBus sendWord) sendWord (.store .byte Reg.a0 Reg.a7 0) := by
  obtain ⟨outcome, served, fetching, decoding⟩ := sender_step
  refine ⟨outcome, served, ?_⟩
  obtain ⟨word, instruction, fetched, decoded, frame⟩ :=
    (step_stays_in_frame sender (wordBus sendWord)).1 .next (ok_of_toOption outcome)
  cases Option.some.inj (fetching.symm.trans fetched)
  cases Option.some.inj (decoding.symm.trans decoded)
  exact frame

end Hart

end HartScope
