import HartScope.Proofs.Hart.RamAccess

/-!
Accesses to CSRs.  The instruction exchanges a register with a CSR.  The tables by which an address
is read and written list the registers that have names, and so a register that could be read can be
written as well.
-/

namespace HartScope

namespace Csr

theorem ofAddress?_of_ne {address : Nat} (elsewhere : ∀ csr : Csr, csr.address ≠ address) :
    ofAddress? address = none := by
  rw [ofAddress?, List.find?_eq_none]
  exact fun csr _ same => elsewhere csr (beq_iff_eq.mp same)

theorem ofAddress?_isSome_iff (address : Nat) :
    (ofAddress? address).isSome ↔ ∃ csr : Csr, csr.address = address := by
  rw [ofAddress?_isSome]
  exact exists_congr fun csr => and_iff_right csr.mem_all

end Csr

namespace Csrs

variable (csrs : Csrs)

theorem set_get (csr : Csr) : csrs.set csr (csrs.get csr) = csrs := by
  cases csr <;> rfl

/-- Reading by address is reading the register of that address. -/
theorem read?_eq (address : Nat) : csrs.read? address = (Csr.ofAddress? address).map csrs.get := by
  cases listed : Csr.ofAddress? address with
  | some csr =>
      obtain rfl := Csr.address_of_ofAddress? listed
      cases csr <;> rfl
  | none =>
      unfold read?
      split
      case h_11 => rfl
      all_goals cases listed

theorem write?_eq (address : Nat) (value : UInt64) :
    csrs.write? address value = (Csr.ofAddress? address).map (csrs.set · value) := by
  cases listed : Csr.ofAddress? address with
  | some csr =>
      obtain rfl := Csr.address_of_ofAddress? listed
      cases csr <;> rfl
  | none =>
      unfold write?
      split
      case h_11 => rfl
      all_goals cases listed

theorem read?_isSome_iff (address : Nat) :
    (csrs.read? address).isSome ↔ ∃ csr : Csr, csr.address = address := by
  rw [read?_eq, Option.isSome_map, Csr.ofAddress?_isSome_iff]

theorem write?_isSome_iff (address : Nat) (value : UInt64) :
    (csrs.write? address value).isSome ↔ ∃ csr : Csr, csr.address = address := by
  rw [write?_eq, Option.isSome_map, Csr.ofAddress?_isSome_iff]

end Csrs

/-- The new value of a CSR. -/
def CsrAction.combine : CsrAction → (old operand : UInt64) → UInt64
  | write, _, operand => operand
  | setBits, old, operand => old ||| operand
  | clearBits, old, operand => old &&& ~~~operand

/-- The word has the opcode and the minor opcode of an access to a CSR. -/
def CsrAccess (word : UInt32) : Prop :=
  Word.opcode word = Opcode.system.bits ∧ Word.funct3 word ∈ [1, 2, 3, 5, 6, 7]

instance (word : UInt32) : Decidable (CsrAccess word) :=
  inferInstanceAs (Decidable (_ ∧ _))

namespace Instruction

variable {word : UInt32}

theorem ofWord?_csrAccess (access : CsrAccess word) :
    ofWord? word =
      (Csr.ofAddress? (Word.csr word)).bind fun register =>
        (csrForm? (Word.funct3 word) (Word.rs1 word)).map fun form =>
          csr form.1 register (Word.rd word) form.2 := by
  obtain ⟨opcode, minor⟩ := access
  have nonzero : Word.funct3 word ≠ 0 := by
    intro zero
    simp [zero] at minor
  simp only [ofWord?, ofFields?, Fields.ofWord, Fields.csr, opcode, Opcode.ofBits?_bits,
    Option.bind_some, ofSystem?, nonzero, if_false, Option.bind_eq_bind]
  cases csrForm? (Word.funct3 word) (Word.rs1 word) <;> rfl

theorem ofWord?_implemented (access : CsrAccess word) {register : Csr}
    (implemented : register.address = Word.csr word) :
    ∃ action source, csrForm? (Word.funct3 word) (Word.rs1 word) = some (action, source) ∧
      ofWord? word = some (csr action register (Word.rd word) source) := by
  have formed := (csrForm?_isSome _ (Word.rs1 word)).mpr access.2
  obtain ⟨⟨action, source⟩, form⟩ := Option.isSome_iff_exists.mp formed
  refine ⟨action, source, form, ?_⟩
  rw [ofWord?_csrAccess access, ← implemented, register.ofAddress?_address, form]
  rfl

theorem ofWord?_unimplemented (access : CsrAccess word)
    (unimplemented : ∀ csr : Csr, csr.address ≠ Word.csr word) : ofWord? word = none := by
  rw [ofWord?_csrAccess access, Csr.ofAddress?_of_ne unimplemented]
  rfl

end Instruction

namespace Hart

/-- The operand of an access: the contents of a register, or the number of the register where the
minor opcode is one of the upper half. -/
def csrOperand (hart : Hart) (word : UInt32) : UInt64 :=
  if Word.funct3 word < 4 then hart.get (Word.rs1 word) else UInt64.ofNat (Word.rs1 word).val

/-- What an access makes of the old value. -/
def csrResult (hart : Hart) (word : UInt32) (old : UInt64) : UInt64 :=
  match Word.funct3 word % 4 with
  | 1 => hart.csrOperand word
  | 2 => old ||| hart.csrOperand word
  | _ => old &&& ~~~hart.csrOperand word

/-- What an access to an implemented CSR does. -/
structure CsrExchange (before after : Hart) (word : UInt32) (csr : Csr) : Prop where
  present : before.csrs.read? (Word.csr word) = some (before.csrs.get csr)
  /-- The old value arrives, also where the operand came from the same register. -/
  received : Word.rd word ≠ Reg.zero → after.get (Word.rd word) = before.csrs.get csr
  registers : ∀ r, r ≠ Word.rd word → after.get r = before.get r
  pc : after.pc = before.pc + 4
  stored : ¬Csrs.ReadOnly csr →
    after.csrs.get csr = before.csrResult word (before.csrs.get csr)
  fixed : Csrs.ReadOnly csr → after.csrs.get csr = before.csrs.get csr
  others : ∀ other, other ≠ csr → after.csrs.get other = before.csrs.get other
  /-- Nothing is set or cleared where the source field is zero. -/
  idle : Word.funct3 word % 4 ≠ 1 → Word.rs1 word = Reg.zero → after.csrs = before.csrs
  accepted : before.csrs.write? (Word.csr word) (before.csrResult word (before.csrs.get csr)) =
    some after.csrs

theorem operand_of_zero (hart : Hart) {source : CsrSource} (unnamed : source.field = Reg.zero) :
    hart.operand source = 0 := by
  cases source with
  | register r =>
      cases unnamed
      rfl
  | immediate r =>
      cases unnamed
      rfl

/-- Where nothing is selected the new value is the old one, so leaving out the write is no
exception. -/
theorem updatedCsrs_eq (hart : Hart) (action : CsrAction) (csr : Csr) (source : CsrSource) :
    hart.updatedCsrs action csr source =
      hart.csrs.set csr (action.combine (hart.csrs.get csr) (hart.operand source)) := by
  cases action with
  | write => rfl
  | setBits | clearBits =>
      by_cases unnamed : source.field = Reg.zero
      · simp [updatedCsrs, CsrAction.combine, unnamed, hart.operand_of_zero unnamed, Csrs.set_get]
      · simp only [updatedCsrs, CsrAction.combine, unnamed, if_false]

theorem csrResult_of_form (hart : Hart) {word : UInt32} {action : CsrAction} {source : CsrSource}
    (form : Instruction.csrForm? (Word.funct3 word) (Word.rs1 word) = some (action, source))
    (old : UInt64) : hart.csrResult word old = action.combine old (hart.operand source) := by
  unfold Instruction.csrForm? at form
  split at form <;> cases form <;> rename_i minor <;>
    simp only [csrResult, csrOperand, minor] <;> rfl

theorem updatedCsrs_get_ne (hart : Hart) (action : CsrAction) {register other : Csr}
    (apart : other ≠ register) (source : CsrSource) :
    (hart.updatedCsrs action register source).get other = hart.csrs.get other := by
  rw [updatedCsrs_eq]
  exact hart.csrs.get_set_ne apart _

theorem updatedCsrs_readOnly (hart : Hart) (action : CsrAction) {register : Csr}
    (readOnly : Csrs.ReadOnly register) (source : CsrSource) :
    hart.updatedCsrs action register source = hart.csrs := by
  rw [updatedCsrs_eq]
  exact hart.csrs.set_readOnly readOnly _

/-- Setting and clearing with source field zero leave the whole file. -/
theorem updatedCsrs_idle (hart : Hart) {word : UInt32} {action : CsrAction} {source : CsrSource}
    (form : Instruction.csrForm? (Word.funct3 word) (Word.rs1 word) = some (action, source))
    (selects : Word.funct3 word % 4 ≠ 1) (unnamed : Word.rs1 word = Reg.zero) (csr : Csr) :
    hart.updatedCsrs action csr source = hart.csrs := by
  unfold Instruction.csrForm? at form
  split at form <;> cases form <;> rename_i minor
  case h_1 | h_4 =>
    rw [minor] at selects
    contradiction
  all_goals exact if_pos unnamed

variable {δ : Type} [Device δ] {hart : Hart} {bus : Bus δ} {word : UInt32}

theorem step_of_csrAccess (fetched : hart.fetched? bus = some word) (access : CsrAccess word)
    {csr : Csr} (implemented : csr.address = Word.csr word) :
    (hart.step bus).result = .ok .next ∧
      (hart.step bus).bus = (bus.read hart.pc .word .fetch).bus ∧
      hart.CsrExchange (hart.step bus).hart word csr := by
  obtain ⟨action, source, form, decoded⟩ := Instruction.ofWord?_implemented access implemented
  have found : hart.instruction? bus =
      some (.csr action csr (Word.rd word) source) := by
    rw [instruction?, fetched, Option.bind_some, decoded]
  obtain ⟨result, after, buses⟩ := step_of_instruction found
  have updated := hart.updatedCsrs_eq action csr source
  have combined := hart.csrResult_of_form form (hart.csrs.get csr)
  refine ⟨result, buses, ?_⟩
  rw [after]
  exact
    { present := by
        rw [Csrs.read?_eq, ← implemented, csr.ofAddress?_address]
        rfl
      received := fun named => Registers.get_set_same _ named _
      registers := fun r distinct => Registers.get_set_ne _ distinct _
      pc := rfl
      stored := by
        intro writable
        rw [combined]
        exact (congrArg (Csrs.get · csr) updated).trans (Csrs.get_set_same _ writable _)
      fixed := fun readOnly =>
        congrArg (Csrs.get · csr) (hart.updatedCsrs_readOnly action readOnly source)
      others := fun other distinct => hart.updatedCsrs_get_ne action distinct source
      idle := fun selects unnamed => hart.updatedCsrs_idle form selects unnamed csr
      accepted := by
        rw [Csrs.write?_eq, ← implemented, csr.ofAddress?_address, combined]
        exact congrArg some updated.symm }

theorem step_of_unimplemented (fetched : hart.fetched? bus = some word) (access : CsrAccess word)
    (unimplemented : ∀ csr : Csr, csr.address ≠ Word.csr word) :
    (hart.step bus).result = .error (.invalidInstruction hart.pc word) ∧
      (hart.step bus).hart = hart ∧
      (hart.step bus).bus = (bus.read hart.pc .word .fetch).bus := by
  have undecoded := Instruction.ofWord?_unimplemented access unimplemented
  have invalid : (hart.step bus).result = .error (.invalidInstruction hart.pc word) := by
    obtain ⟨unfetched, _⟩ | ⟨other, same, _, invalid⟩ | ⟨other, _, _, same, decoded, _⟩ :=
      hart.step_cases bus
    · simp [unfetched] at fetched
    · cases Option.some.inj (fetched.symm.trans same)
      exact invalid
    · cases Option.some.inj (fetched.symm.trans same)
      simp [undecoded] at decoded
  have outcome := (step_error invalid).1
  exact ⟨invalid, congrArg Completion.hart outcome, congrArg Completion.bus outcome⟩

end Hart

end HartScope
