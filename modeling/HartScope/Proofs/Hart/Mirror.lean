import HartScope.Proofs.Hart.PreciseFaults
import HartScope.Proofs.Memory.Same

/-!
One instruction on two buses.  A bus without devices whose RAM holds the same bytes answers like the
bus with devices, except to an access that a device serves.  So an instruction does the same on both,
or it is a load or a store that a device served.
-/

namespace HartScope

variable {δ ε : Type} [Device δ] [Device ε] {plain : Bus ε} {bus : Bus δ}

namespace Bus

theorem read_mirrored (bare : plain.devices = []) (same : plain.ram.Same bus.ram)
    (address : UInt64) (width : Width) (kind : AccessKind) :
    (∃ result, plain.read address width kind = ⟨result, plain, []⟩ ∧
      bus.read address width kind = ⟨result, bus, []⟩) ∨
    (∃ position device, bus.ram.read? address width = none ∧
      bus.target? address width.bytes = some (position, device) ∧
      bus.read address width kind = bus.deviceRead address width position device) := by
  have contents := same.read?_eq address width
  have unclaimed := target?_of_no_devices bare address width.bytes
  obtain ⟨value, inRam, shape⟩ | ⟨outside, _, shape⟩ | ⟨position, device, outside, found, shape⟩ :=
    bus.read_cases address width kind
  · refine .inl ⟨.ok value, ?_, shape⟩
    simp [read, contents, inRam]
  · refine .inl ⟨.error ⟨address, width, kind⟩, ?_, shape⟩
    simp [read, contents, outside, unclaimed]
  · exact .inr ⟨position, device, outside, found, shape⟩

theorem write_mirrored (bare : plain.devices = []) (same : plain.ram.Same bus.ram)
    (address : UInt64) (width : Width) (value : UInt64) :
    (∃ result copy ram, Memory.Same copy ram ∧
      plain.write address width value = ⟨result, { plain with ram := copy }, []⟩ ∧
      bus.write address width value = ⟨result, { bus with ram := ram }, []⟩) ∨
    (∃ position device, bus.ram.write? address width value = none ∧
      bus.target? address width.bytes = some (position, device) ∧
      bus.write address width value = bus.deviceWrite address width value position device) := by
  have unclaimed := target?_of_no_devices bare address width.bytes
  obtain ⟨ram, inRam, shape⟩ | ⟨outside, _, shape⟩ | ⟨position, device, outside, found, shape⟩ :=
    bus.write_cases address width value
  · obtain ⟨copy, copied, agree⟩ := same.load? inRam
    refine .inl ⟨.ok (), copy, ram, agree, ?_, shape⟩
    simp [write, Memory.write?, copied]
  · have refused := same.load?_none outside
    refine .inl ⟨.error ⟨address, width, .write⟩, plain.ram, bus.ram, same, ?_, shape⟩
    simp [write, Memory.write?, refused, unclaimed]
  · exact .inr ⟨position, device, outside, found, shape⟩

end Bus

/-- The completion on the bus without devices is the one on the bus with devices, which served no
access. -/
structure Completion.Mirrors (copy : Completion ε) (done : Completion δ) (bus : Bus δ) : Prop where
  result : copy.result = done.result
  hart : copy.hart = done.hart
  output : copy.output = done.output
  bare : copy.bus.devices = []
  ram : copy.bus.ram.Same done.bus.ram
  touched : done.bus.touched = bus.touched

/-- The completion of a load or a store that a device served.  Beyond the devices it changes only
registers and the program counter. -/
structure Completion.Served (done : Completion δ) (hart : Hart) (bus : Bus δ) : Prop where
  retired : done.result = .ok .next
  csrs : done.hart.csrs = hart.csrs
  attached : bus.devices ≠ []
  ram : done.bus.ram = bus.ram
  touched : done.bus.touched = true

namespace Hart

variable (hart : Hart)

theorem executeLoad_mirrored (bare : plain.devices = []) (same : plain.ram.Same bus.ram)
    (form : LoadForm) (rd rs1 : Reg) (imm : Int) :
    (hart.executeLoad plain form rd rs1 imm).Mirrors (hart.executeLoad bus form rd rs1 imm) bus ∨
      (hart.executeLoad bus form rd rs1 imm).Served hart bus := by
  unfold executeLoad
  obtain ⟨result, copied, shape⟩ | ⟨position, device, _, found, shape⟩ :=
    Bus.read_mirrored bare same (hart.address rs1 imm) form.width .read
  · rw [copied, shape]
    cases result with
    | error cause => exact .inl ⟨rfl, rfl, rfl, bare, same, rfl⟩
    | ok value => exact .inl ⟨rfl, rfl, rfl, bare, same, rfl⟩
  · rw [shape]
    exact .inr ⟨rfl, rfl, Bus.attached_of_target? found, rfl, rfl⟩

theorem executeStore_mirrored (bare : plain.devices = []) (same : plain.ram.Same bus.ram)
    (width : Width) (rs1 rs2 : Reg) (imm : Int) :
    (hart.executeStore plain width rs1 rs2 imm).Mirrors (hart.executeStore bus width rs1 rs2 imm)
        bus ∨
      (hart.executeStore bus width rs1 rs2 imm).Served hart bus := by
  unfold executeStore
  obtain ⟨result, copy, ram, agree, copied, shape⟩ | ⟨position, device, _, found, shape⟩ :=
    Bus.write_mirrored bare same (hart.address rs1 imm) width (hart.get rs2 &&& width.mask)
  · rw [copied, shape]
    cases result with
    | error cause => exact .inl ⟨rfl, rfl, rfl, bare, agree, rfl⟩
    | ok _ => exact .inl ⟨rfl, rfl, rfl, bare, agree, rfl⟩
  · rw [shape]
    exact .inr ⟨rfl, rfl, Bus.attached_of_target? found, rfl, rfl⟩

theorem execute_mirrored (bare : plain.devices = []) (same : plain.ram.Same bus.ram)
    (instruction : Instruction) :
    (hart.execute plain instruction).Mirrors (hart.execute bus instruction) bus ∨
      (hart.execute bus instruction).Served hart bus := by
  cases instruction with
  | load form rd rs1 imm => exact executeLoad_mirrored hart bare same form rd rs1 imm
  | store width rs1 rs2 imm => exact executeStore_mirrored hart bare same width rs1 rs2 imm
  | ecall =>
      simp only [execute, executeEnvironmentCall]
      split <;> exact .inl ⟨rfl, rfl, rfl, bare, same, rfl⟩
  | lui | auipc | jal | jalr | branch | opImm | op | fence | ebreak | mret | csr =>
      exact .inl ⟨rfl, rfl, rfl, bare, same, rfl⟩

theorem executeWord_mirrored (bare : plain.devices = []) (same : plain.ram.Same bus.ram)
    (word : UInt32) :
    (hart.executeWord plain word).Mirrors (hart.executeWord bus word) bus ∨
      (hart.executeWord bus word).Served hart bus := by
  unfold executeWord
  cases Instruction.ofWord? word with
  | none => exact .inl ⟨rfl, rfl, rfl, bare, same, rfl⟩
  | some instruction => exact execute_mirrored hart bare same instruction

/-- A step whose word does not come from a device does the same on both buses, unless a device
serves the access of the instruction. -/
theorem step_mirrored (bare : plain.devices = []) (same : plain.ram.Same bus.ram)
    (fetched : bus.ram.read? hart.pc .word = none →
      bus.target? hart.pc Width.word.bytes = none) :
    (hart.step plain).Mirrors (hart.step bus).toCompletion bus ∨
      (hart.step bus).Served hart bus := by
  obtain ⟨result, copied, shape⟩ | ⟨position, device, outside, found, _⟩ :=
    Bus.read_mirrored bare same hart.pc .word .fetch
  · cases result with
    | error cause =>
        have refusedCopy : (plain.read hart.pc .word .fetch).result = .error cause := by rw [copied]
        have refused : (bus.read hart.pc .word .fetch).result = .error cause := by rw [shape]
        rw [step_of_fetch_error refusedCopy, step_of_fetch_error refused]
        exact .inl ⟨rfl, rfl, rfl, bare, same, rfl⟩
    | ok value =>
        have servedCopy : (plain.read hart.pc .word .fetch).result = .ok value := by rw [copied]
        have served : (bus.read hart.pc .word .fetch).result = .ok value := by rw [shape]
        rw [step_of_fetch servedCopy, step_of_fetch served, copied, shape]
        exact executeWord_mirrored hart bare same value.toUInt32
  · rw [fetched outside] at found
    cases found

theorem step_bare (bare : plain.devices = []) : (hart.step plain).bus.devices = [] := by
  have unclaimed := Bus.target?_of_no_devices bare hart.pc Width.word.bytes
  obtain mirrored | served :=
    step_mirrored hart bare (Memory.Same.refl plain.ram) (fun _ => unclaimed)
  · exact mirrored.bare
  · exact absurd bare served.attached

end Hart

end HartScope
