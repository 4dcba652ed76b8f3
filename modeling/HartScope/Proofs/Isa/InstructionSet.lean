import HartScope.Isa.Instruction

/-!
The instruction set, written down as the bits that its encodings fix, and the words that decode to
an instruction.  Every encoding decodes, and the only other words that do are those of the memory
ordering opcode, whose minor opcode is not looked at.
-/

namespace HartScope

namespace Word

theorem field_upper (word : UInt32) (low skipped kept : Nat) :
    field word (low + skipped) kept = field word low (skipped + kept) / (1 <<< skipped) := by
  simp only [field, Nat.one_shiftLeft, Nat.shiftRight_add]
  rw [Nat.pow_add, Nat.mod_mul_right_div_self, Nat.shiftRight_eq_div_pow _ skipped]

theorem field_whole (word : UInt32) : field word 0 32 = word.toNat :=
  Nat.mod_eq_of_lt word.toNat_lt

end Word

/-- A range of bits and the number that they spell. -/
structure FixedBits where
  low : Nat
  length : Nat
  value : Nat
deriving DecidableEq, Repr

namespace FixedBits

def funct3 (value : Nat) : FixedBits := ⟨12, 3, value⟩
def funct6 (value : Nat) : FixedBits := ⟨26, 6, value⟩
def funct7 (value : Nat) : FixedBits := ⟨25, 7, value⟩
def csr (register : Csr) : FixedBits := ⟨20, 12, register.address⟩
def whole (value : UInt32) : FixedBits := ⟨0, 32, value.toNat⟩

def Holds (fixed : FixedBits) (word : UInt32) : Prop :=
  Word.field word fixed.low fixed.length = fixed.value

instance (fixed : FixedBits) (word : UInt32) : Decidable (fixed.Holds word) :=
  inferInstanceAs (Decidable (_ = _))

variable {word : UInt32} {value : Nat}

@[simp] theorem holds_funct3 : (funct3 value).Holds word ↔ Word.funct3 word = value :=
  Iff.rfl

@[simp] theorem holds_funct6 : (funct6 value).Holds word ↔ Word.field word 26 6 = value :=
  Iff.rfl

@[simp] theorem holds_funct7 : (funct7 value).Holds word ↔ Word.funct7 word = value :=
  Iff.rfl

@[simp] theorem holds_csr {register : Csr} :
    (csr register).Holds word ↔ Word.csr word = register.address :=
  Iff.rfl

@[simp] theorem holds_whole {other : UInt32} : (whole other).Holds word ↔ word = other := by
  rw [← UInt32.toNat_inj, ← Word.field_whole word]
  exact Iff.rfl

end FixedBits

/-- A major opcode and what an instruction fixes besides.  The other bits are operands. -/
structure Encoding where
  opcode : Opcode
  fixed : List FixedBits := []
deriving DecidableEq, Repr

namespace Encoding

open FixedBits

def Matches (encoding : Encoding) (word : UInt32) : Prop :=
  Word.opcode word = encoding.opcode.bits ∧ ∀ fixed ∈ encoding.fixed, fixed.Holds word

instance (encoding : Encoding) (word : UInt32) : Decidable (encoding.Matches word) :=
  inferInstanceAs (Decidable (_ ∧ _))

def plain (opcodes : List Opcode) : List Encoding :=
  opcodes.map fun opcode => ⟨opcode, []⟩

def minor (opcode : Opcode) (codes : List Nat) (fixed : List FixedBits := []) : List Encoding :=
  codes.map fun code => ⟨opcode, funct3 code :: fixed⟩

/-- The 64-bit base set.  Immediate shifts have six bits of amount, and their word forms five. -/
def base : List Encoding :=
  plain [.lui, .auipc, .jal] ++ minor .jalr [0] ++ minor .branch [0, 1, 4, 5, 6, 7] ++
  minor .load [0, 1, 2, 3, 4, 5, 6] ++ minor .store [0, 1, 2, 3] ++
  minor .opImm [0, 2, 3, 4, 6, 7] ++
  minor .opImm [1, 5] [funct6 0x00] ++ minor .opImm [5] [funct6 0x10] ++
  minor .opImm32 [0] ++
  minor .opImm32 [1, 5] [funct7 0x00] ++ minor .opImm32 [5] [funct7 0x20] ++
  minor .op [0, 1, 2, 3, 4, 5, 6, 7] [funct7 0x00] ++ minor .op [0, 5] [funct7 0x20] ++
  minor .op32 [0, 1, 5] [funct7 0x00] ++ minor .op32 [0, 5] [funct7 0x20] ++
  minor .miscMem [0, 1]

def multiply : List Encoding :=
  minor .op [0, 1, 2, 3, 4, 5, 6, 7] [funct7 0x01] ++ minor .op32 [0, 4, 5, 6, 7] [funct7 0x01]

def csrAccess : List Encoding :=
  Csr.all.flatMap fun register => minor .system [1, 2, 3, 5, 6, 7] [csr register]

/-- Environment call, halt and trap return. -/
def privileged : List Encoding :=
  [(0x00000073 : UInt32), 0x00100073, 0x30200073].map fun word => ⟨.system, [whole word]⟩

def instructionSet : List Encoding :=
  base ++ multiply ++ csrAccess ++ privileged

end Encoding

def Documented (word : UInt32) : Prop :=
  ∃ encoding ∈ Encoding.instructionSet, encoding.Matches word

theorem documented_iff_any {word : UInt32} :
    Documented word ↔ Encoding.instructionSet.any (·.Matches word) := by
  simp [Documented]

instance (word : UInt32) : Decidable (Documented word) :=
  inferInstanceAs (Decidable (∃ encoding ∈ Encoding.instructionSet, encoding.Matches word))

/-- The word has the opcode of memory ordering, but not the minor opcode of one of its two
instructions. -/
def ReservedFence (word : UInt32) : Prop :=
  Word.opcode word = Opcode.miscMem.bits ∧ 2 ≤ Word.funct3 word

instance (word : UInt32) : Decidable (ReservedFence word) :=
  inferInstanceAs (Decidable (_ ∧ _))

namespace Encoding

variable {word : UInt32} {opcode : Opcode}

theorem any_plain {opcodes : List Opcode} :
    (plain opcodes).any (·.Matches word) ↔ ∃ opcode ∈ opcodes, Word.opcode word = opcode.bits := by
  simp [plain, Matches]

theorem any_minor {codes : List Nat} {fixed : List FixedBits} :
    (minor opcode codes fixed).any (·.Matches word) ↔
      Word.opcode word = opcode.bits ∧ Word.funct3 word ∈ codes ∧
        ∀ bits ∈ fixed, bits.Holds word := by
  simp only [minor, List.any_map, List.any_eq_true, Function.comp_apply, decide_eq_true_eq]
  simp only [Matches, List.mem_cons, forall_eq_or_imp, FixedBits.holds_funct3]
  grind

theorem any_csrAccess :
    csrAccess.any (·.Matches word) ↔
      Word.opcode word = Opcode.system.bits ∧ Word.funct3 word ∈ [1, 2, 3, 5, 6, 7] ∧
        ∃ csr ∈ Csr.all, csr.address = Word.csr word := by
  rw [csrAccess, List.any_flatMap, List.any_eq_true]
  simp only [any_minor, List.mem_singleton, forall_eq, FixedBits.holds_csr]
  grind

theorem funct3_of_privileged
    (privileged : word ∈ [Instruction.ecallWord, Instruction.ebreakWord, Instruction.mretWord]) :
    Word.funct3 word = 0 := by
  simp only [List.mem_cons, List.not_mem_nil, or_false] at privileged
  obtain rfl | rfl | rfl := privileged <;> rfl

theorem any_privileged :
    privileged.any (·.Matches word) ↔
      Word.opcode word = Opcode.system.bits ∧ Word.funct3 word = 0 ∧
        word ∈ [Instruction.ecallWord, Instruction.ebreakWord, Instruction.mretWord] := by
  have minor := @funct3_of_privileged word
  simp only [privileged, List.any_map, List.any_eq_true, Function.comp_apply, decide_eq_true_eq]
  simp only [Matches, List.mem_singleton, forall_eq, FixedBits.holds_whole]
  grind [Instruction.ecallWord, Instruction.ebreakWord, Instruction.mretWord]

end Encoding

theorem Opcode.bits_of_ofBits? {bits : Nat} {opcode : Opcode}
    (found : ofBits? bits = some opcode) : opcode.bits = bits := by
  unfold ofBits? at found
  split at found <;> first | cases found; rfl | cases found

theorem Opcode.bits_inj {opcode other : Opcode} : opcode.bits = other.bits ↔ opcode = other := by
  refine ⟨fun same => Option.some.inj ?_, congrArg bits⟩
  rw [← ofBits?_bits, same, ofBits?_bits]

theorem Csr.ofAddress?_isSome (address : Nat) :
    (ofAddress? address).isSome ↔ ∃ csr ∈ all, csr.address = address := by
  simp [ofAddress?, List.find?_isSome]

theorem Condition.ofFunct3?_isSome (code : Nat) :
    (ofFunct3? code).isSome ↔ code ∈ [0, 1, 4, 5, 6, 7] := by
  unfold ofFunct3?
  split <;> simp_all

theorem LoadForm.ofFunct3?_isSome (code : Nat) :
    (ofFunct3? code).isSome ↔ code ∈ [0, 1, 2, 3, 4, 5, 6] := by
  unfold ofFunct3?
  split <;> simp_all

theorem Width.ofFunct3?_isSome (code : Nat) :
    (ofFunct3? code).isSome ↔ code ∈ [0, 1, 2, 3] := by
  unfold ofFunct3?
  split <;> simp_all

theorem Instruction.csrForm?_isSome (code : Nat) (field : Reg) :
    (csrForm? code field).isSome ↔ code ∈ [1, 2, 3, 5, 6, 7] := by
  unfold csrForm?
  split <;> simp_all

namespace AluOp

theorem ofMultiply?_isSome (code : Nat) (narrow : Bool) :
    (ofMultiply? code narrow).isSome ↔
      code ∈ if narrow then [0, 4, 5, 6, 7] else [0, 1, 2, 3, 4, 5, 6, 7] := by
  cases narrow <;> unfold ofMultiply? <;> split <;> simp_all

theorem ofBase?_isSome (code selector : Nat) (narrow : Bool) :
    (ofBase? code selector narrow).isSome ↔
      selector = 0x00 ∧ code ∈ (if narrow then [0, 1, 5] else [0, 1, 2, 3, 4, 5, 6, 7]) ∨
        selector = 0x20 ∧ code ∈ [0, 5] := by
  cases narrow <;> unfold ofBase? <;> split <;> simp_all <;> grind

theorem shiftSelector_narrow (word : UInt32) :
    shiftSelector (Word.immI word) true = Word.field word 25 7 := by
  -- The selector has seven bits, so it is cut off below the copies of the sign.
  have bounded : Word.field word 20 12 < 4096 := Word.field_lt word 20 12
  have upper : Word.field word 25 7 = Word.field word 20 12 / 32 := Word.field_upper word 20 5 7
  simp only [shiftSelector, Word.immI, Word.signed]
  split <;> grind

/-- Above a shift amount of six stand six bits and a copy of the sign. -/
theorem shiftSelector_wide (word : UInt32) :
    shiftSelector (Word.immI word) false =
      Word.field word 26 6 + if Word.field word 26 6 < 32 then 0 else 64 := by
  have bounded : Word.field word 20 12 < 4096 := Word.field_lt word 20 12
  have upper : Word.field word 26 6 = Word.field word 20 12 / 64 := Word.field_upper word 20 6 6
  simp only [shiftSelector, Word.immI, Word.signed]
  split <;> split <;> grind

theorem ofRegisterForm?_isSome (code selector : Nat) (narrow : Bool) :
    (ofRegisterForm? code selector narrow).isSome ↔
      selector = 0x01 ∧ code ∈ (if narrow then [0, 4, 5, 6, 7] else [0, 1, 2, 3, 4, 5, 6, 7]) ∨
        selector = 0x00 ∧ code ∈ (if narrow then [0, 1, 5] else [0, 1, 2, 3, 4, 5, 6, 7]) ∨
        selector = 0x20 ∧ code ∈ [0, 5] := by
  unfold ofRegisterForm?
  split <;> simp_all [ofMultiply?_isSome, ofBase?_isSome]

theorem ofImmediateForm?_narrow (word : UInt32) (code : Nat) :
    (ofImmediateForm? code (Word.immI word) true).isSome ↔
      code = 0 ∨ Word.funct7 word = 0x00 ∧ code ∈ [1, 5] ∨ Word.funct7 word = 0x20 ∧ code = 5 := by
  simp only [ofImmediateForm?, shiftSelector_narrow, arithmeticSelector, Word.funct7]
  split <;> grind

theorem ofImmediateForm?_wide (word : UInt32) (code : Nat) :
    (ofImmediateForm? code (Word.immI word) false).isSome ↔
      code ∈ [0, 2, 3, 4, 6, 7] ∨ code ∈ [1, 5] ∧ Word.field word 26 6 = 0x00 ∨
        code = 5 ∧ Word.field word 26 6 = 0x10 := by
  have bounded : Word.field word 26 6 < 64 := Word.field_lt word 26 6
  simp only [ofImmediateForm?, shiftSelector_wide, arithmeticSelector, List.mem_cons,
    List.not_mem_nil, or_false]
  split <;> grind

end AluOp

namespace Instruction

variable {word : UInt32}

theorem ofPrivileged?_isSome :
    (ofPrivileged? word).isSome ↔ word ∈ [ecallWord, ebreakWord, mretWord] := by
  unfold ofPrivileged?
  split <;> grind

theorem ofSystem?_isSome {fields : Fields} :
    (ofSystem? fields).isSome ↔
      fields.funct3 = 0 ∧ fields.raw ∈ [ecallWord, ebreakWord, mretWord] ∨
        fields.funct3 ∈ [1, 2, 3, 5, 6, 7] ∧ ∃ csr ∈ Csr.all, csr.address = fields.csr := by
  unfold ofSystem?
  by_cases minor : fields.funct3 = 0
  · simp [minor, ofPrivileged?_isSome]
  · rw [← Csr.ofAddress?_isSome, ← csrForm?_isSome _ fields.rs1]
    cases Csr.ofAddress? fields.csr <;> cases csrForm? fields.funct3 fields.rs1 <;> simp [minor]

theorem ofSystem?_cases {fields : Fields} {instruction : Instruction}
    (found : ofSystem? fields = some instruction) :
    ofPrivileged? fields.raw = some instruction ∨
      fields.funct3 ≠ 0 ∧ ∃ register action source, Csr.ofAddress? fields.csr = some register ∧
        csrForm? fields.funct3 fields.rs1 = some (action, source) ∧
        instruction = csr action register fields.rd source := by
  unfold ofSystem? at found
  split at found
  · exact .inl found
  · rename_i minor
    obtain ⟨register, known, rest⟩ := Option.bind_eq_some_iff.mp found
    obtain ⟨⟨action, source⟩, form, same⟩ := Option.bind_eq_some_iff.mp rest
    exact .inr ⟨minor, register, action, source, known, form, (Option.some.inj same).symm⟩

theorem ofPrivileged?_cases {instruction : Instruction}
    (found : ofPrivileged? word = some instruction) :
    (word, instruction) ∈ [(ecallWord, ecall), (ebreakWord, ebreak), (mretWord, mret)] := by
  unfold ofPrivileged? at found
  grind

/-- The words that decode.  Memory ordering goes by its opcode alone. -/
theorem ofWord?_isSome_iff :
    (ofWord? word).isSome ↔ Documented word ∨ ReservedFence word := by
  rw [documented_iff_any]
  simp only [Encoding.instructionSet, Encoding.base, Encoding.multiply, List.any_append,
    Bool.or_eq_true, Encoding.any_plain, Encoding.any_minor, Encoding.any_csrAccess,
    Encoding.any_privileged, List.mem_singleton, List.not_mem_nil, forall_eq,
    FixedBits.holds_funct6, FixedBits.holds_funct7, ReservedFence]
  cases known : Opcode.ofBits? (Word.opcode word) with
  | none =>
      have unknown (opcode : Opcode) : Word.opcode word ≠ opcode.bits := by
        intro same
        rw [same, Opcode.ofBits?_bits] at known
        contradiction
      simp [ofWord?, ofFields?, Fields.ofWord, known, unknown]
  | some opcode =>
      have bits := Opcode.bits_of_ofBits? known
      have small : Word.funct3 word < 8 := Word.field_lt word 12 3
      simp only [ofWord?, ofFields?, Fields.ofWord, ← bits, Opcode.ofBits?_bits, Option.bind_some,
        Opcode.bits_inj]
      cases opcode with
      | lui | auipc | jal | jalr => simp
      | branch => simp [Condition.ofFunct3?_isSome]
      | load => simp [LoadForm.ofFunct3?_isSome]
      | store => simp [Width.ofFunct3?_isSome]
      | opImm =>
          simp only [ofImmediate?, Option.isSome_map, Word.immediate, Opcode.format,
            AluOp.ofImmediateForm?_wide]
          grind
      | opImm32 =>
          simp only [ofImmediate?, Option.isSome_map, Word.immediate, Opcode.format,
            AluOp.ofImmediateForm?_narrow]
          grind
      | op | op32 =>
          simp only [ofRegister?, Option.isSome_map, AluOp.ofRegisterForm?_isSome]
          grind
      | miscMem =>
          have minor : Word.funct3 word ∈ [0, 1] ∨ 2 ≤ Word.funct3 word := by grind
          simpa using minor
      | system =>
          simp only [ofSystem?_isSome, Fields.csr]
          grind

end Instruction

end HartScope
