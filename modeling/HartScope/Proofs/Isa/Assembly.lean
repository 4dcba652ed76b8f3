import HartScope.Isa.Disassembly
import HartScope.Proofs.Isa.Formats
import HartScope.Proofs.Text.Tokens

/-!
Assembly as a notation for instructions.  The line of a word that decodes is the mnemonic of its
instruction followed by the operands, and at a given address no two instructions share a line.
-/

namespace HartScope

def Condition.mnemonic : Condition → String
  | eq => "beq"
  | ne => "bne"
  | lt => "blt"
  | ge => "bge"
  | ltu => "bltu"
  | geu => "bgeu"

/-- A double word fills a register, so that its load has one form only. -/
def LoadForm.mnemonic : LoadForm → String
  | ⟨.byte, true⟩ => "lb"
  | ⟨.half, true⟩ => "lh"
  | ⟨.word, true⟩ => "lw"
  | ⟨.byte, false⟩ => "lbu"
  | ⟨.half, false⟩ => "lhu"
  | ⟨.word, false⟩ => "lwu"
  | ⟨.double, _⟩ => "ld"

def Width.storeMnemonic : Width → String
  | byte => "sb"
  | half => "sh"
  | word => "sw"
  | double => "sd"

namespace AluOp

def mnemonic : AluOp → String
  | add => "add"
  | sub => "sub"
  | sll => "sll"
  | slt => "slt"
  | sltu => "sltu"
  | xor => "xor"
  | srl => "srl"
  | sra => "sra"
  | or => "or"
  | and => "and"
  | mul => "mul"
  | mulh => "mulh"
  | mulhsu => "mulhsu"
  | mulhu => "mulhu"
  | div => "div"
  | divu => "divu"
  | rem => "rem"
  | remu => "remu"

def immediateMnemonic : AluOp → String
  | sltu => "sltiu"
  | op => op.mnemonic ++ "i"

def suffix (narrow : Bool) : String :=
  if narrow then "w" else ""

/-- What a shift by an immediate has above the six bits of its amount. -/
def shiftKind? : AluOp → Option Int
  | sll | srl => some 0
  | sra => some 0x10
  | _ => none

/-- The number that is printed for an immediate. -/
def printed (op : AluOp) (imm : Int) : Int :=
  if op.shiftKind?.isSome then imm % 64 else imm

end AluOp

def CsrAction.mnemonic : CsrAction → String
  | write => "csrrw"
  | setBits => "csrrs"
  | clearBits => "csrrc"

def CsrSource.suffix : CsrSource → String
  | register _ => ""
  | immediate _ => "i"

def CsrSource.operand : CsrSource → String
  | register r => r.name
  | immediate r => toString r.val

def CsrSource.cleared : CsrSource → CsrSource
  | register _ => register .zero
  | immediate _ => immediate .zero

namespace Instruction

def mnemonic : Instruction → String
  | lui _ _ => "lui"
  | auipc _ _ => "auipc"
  | jal _ _ => "jal"
  | jalr _ _ _ => "jalr"
  | branch condition _ _ _ => condition.mnemonic
  | load form _ _ _ => form.mnemonic
  | store width _ _ _ => width.storeMnemonic
  | opImm operation narrow _ _ _ => operation.immediateMnemonic ++ AluOp.suffix narrow
  | op operation narrow _ _ _ => operation.mnemonic ++ AluOp.suffix narrow
  | fence => "fence"
  | ecall => "ecall"
  | ebreak => "ebreak"
  | mret => "mret"
  | csr action _ _ source => action.mnemonic ++ source.suffix

/-- The operands as they are printed at address `pc`. -/
def operands (pc : UInt64) : Instruction → List String
  | lui rd imm | auipc rd imm => [rd.name, Numeral.hex (imm / 0x1000 % 0x100000).toNat]
  | jal rd imm => [rd.name, Numeral.hex (pc + UInt64.ofInt imm).toNat]
  | jalr rd rs1 imm | load _ rd rs1 imm => [rd.name, toString imm, rs1.name]
  | branch _ rs1 rs2 imm => [rs1.name, rs2.name, Numeral.hex (pc + UInt64.ofInt imm).toNat]
  | store _ rs1 rs2 imm => [rs2.name, toString imm, rs1.name]
  | opImm operation _ rd rs1 imm => [rd.name, rs1.name, toString (operation.printed imm)]
  | op _ _ rd rs1 rs2 => [rd.name, rs1.name, rs2.name]
  | fence | ecall | ebreak | mret => []
  | csr _ register rd source => [rd.name, register.name, source.operand]

/-- The instruction with all its operands cleared. -/
def cleared : Instruction → Instruction
  | lui _ _ => lui .zero 0
  | auipc _ _ => auipc .zero 0
  | jal _ _ => jal .zero 0
  | jalr _ _ _ => jalr .zero .zero 0
  | branch condition _ _ _ => branch condition .zero .zero 0
  | load form _ _ _ => load form .zero .zero 0
  | store width _ _ _ => store width .zero .zero 0
  | opImm operation narrow _ _ _ => opImm operation narrow .zero .zero 0
  | op operation narrow _ _ _ => op operation narrow .zero .zero .zero
  | csr action _ _ source => csr action .mstatus .zero source.cleared
  | fence => fence
  | ecall => ecall
  | ebreak => ebreak
  | mret => mret

/-- What every instruction that has a word satisfies, as far as its line depends on it. -/
def Encodable : Instruction → Prop
  | lui _ imm | auipc _ imm => Format.u.Represents imm
  | jal _ imm => Format.j.Represents imm
  | branch _ _ _ imm => Format.b.Represents imm
  | load form _ _ _ => form.width = .double → form.signed = false
  | opImm operation _ _ _ imm => ∀ kind ∈ operation.shiftKind?, imm / 64 = kind
  | _ => True

/-- The cleared instructions that have a mnemonic of their own. -/
def kinds : List Instruction :=
  [lui .zero 0, auipc .zero 0, jal .zero 0, jalr .zero .zero 0, fence, ecall, ebreak, mret] ++
  [.eq, .ne, .lt, .ge, .ltu, .geu].map (branch · .zero .zero 0) ++
  [⟨.byte, true⟩, ⟨.half, true⟩, ⟨.word, true⟩, ⟨.byte, false⟩, ⟨.half, false⟩, ⟨.word, false⟩,
    ⟨.double, false⟩].map (load · .zero .zero 0) ++
  [.byte, .half, .word, .double].map (store · .zero .zero 0) ++
  [false, true].flatMap (fun narrow => AluOp.all.map (opImm · narrow .zero .zero 0)) ++
  [false, true].flatMap (fun narrow => AluOp.all.map (op · narrow .zero .zero .zero)) ++
  [.register .zero, .immediate .zero].flatMap fun source =>
    [.write, .setBits, .clearBits].map (csr · .mstatus .zero source)

theorem kinds_mnemonic_nodup : (kinds.map mnemonic).Nodup := by
  decide +kernel

theorem kinds_mnemonic_isToken : ∀ kind ∈ kinds, Disassembly.IsToken kind.mnemonic := by
  decide +kernel

theorem mnemonic_cleared (instruction : Instruction) :
    instruction.cleared.mnemonic = instruction.mnemonic := by
  cases instruction with
  | csr _ _ _ source => cases source <;> rfl
  | _ => rfl

theorem cleared_mem_kinds {instruction : Instruction} (encodable : instruction.Encodable) :
    instruction.cleared ∈ kinds := by
  have known (op : AluOp) : op ∈ AluOp.all := by cases op <;> decide
  cases instruction with
  | lui | auipc | jal | jalr | fence | ecall | ebreak | mret => simp [kinds, cleared]
  | branch condition => cases condition <;> simp [kinds, cleared]
  | load form =>
      obtain ⟨width, signed⟩ := form
      cases width <;> cases signed <;> simp_all [kinds, cleared, Encodable]
  | store width => cases width <;> simp [kinds, cleared]
  | opImm op narrow => cases narrow <;> simp [kinds, cleared, known]
  | op op narrow => cases narrow <;> simp [kinds, cleared, known]
  | csr action _ _ source =>
      cases action <;> cases source <;> simp [kinds, cleared, CsrSource.cleared]

theorem mnemonic_isToken {instruction : Instruction} (encodable : instruction.Encodable) :
    Disassembly.IsToken instruction.mnemonic := by
  rw [← mnemonic_cleared]
  exact kinds_mnemonic_isToken _ (cleared_mem_kinds encodable)

theorem cleared_eq_of_mnemonic {first second : Instruction} (left : first.Encodable)
    (right : second.Encodable) (same : first.mnemonic = second.mnemonic) :
    first.cleared = second.cleared := by
  rw [← mnemonic_cleared, ← mnemonic_cleared second] at same
  exact List.inj_on_of_nodup_map kinds_mnemonic_nodup (cleared_mem_kinds left)
    (cleared_mem_kinds right) same

/-! Operands. -/

variable {pc : UInt64} {first second : Instruction}

theorem upper_inj {a b : Int} (left : Format.u.Represents a) (right : Format.u.Represents b) :
    Numeral.hex (a / 0x1000 % 0x100000).toNat = Numeral.hex (b / 0x1000 % 0x100000).toNat ↔
      a = b := by
  rw [Disassembly.hex_inj]
  simp only [Format.Represents] at left right
  omega

/-- Of two targets at an address only equal displacements coincide, however the address wraps. -/
theorem target_inj {format other : Format} {a b : Int} (left : format.Represents a)
    (right : other.Represents b) :
    Numeral.hex (pc + UInt64.ofInt a).toNat = Numeral.hex (pc + UInt64.ofInt b).toNat ↔ a = b := by
  refine ⟨fun same => ?_, fun same => by rw [same]⟩
  rw [Disassembly.hex_inj, UInt64.toNat_inj, UInt64.add_right_inj] at same
  obtain ⟨_, _⟩ := Format.represented_bounds left
  obtain ⟨_, _⟩ := Format.represented_bounds right
  have first : (UInt64.ofInt a).toInt64.toInt = a := toInt_ofInt (by omega) (by omega)
  have second : (UInt64.ofInt b).toInt64.toInt = b := toInt_ofInt (by omega) (by omega)
  rw [← first, same, second]

theorem printed_inj {op : AluOp} {a b : Int} (left : ∀ kind ∈ op.shiftKind?, a / 64 = kind)
    (right : ∀ kind ∈ op.shiftKind?, b / 64 = kind) :
    op.printed a = op.printed b ↔ a = b := by
  unfold AluOp.printed
  cases shift : op.shiftKind? with
  | none => simp
  | some kind =>
      have upper := left kind shift
      have same := right kind shift
      simp only [Option.isSome_some, if_true]
      omega

theorem csr_name_inj {a b : Csr} : a.name = b.name ↔ a = b := by
  cases a <;> cases b <;> decide

theorem source_ext {a b : CsrSource} (kind : a.cleared = b.cleared)
    (operands : a.operand = b.operand) : a = b := by
  cases a with
  | register r =>
      cases b with
      | register s => rw [Disassembly.name_inj.mp operands]
      | immediate s => cases kind
  | immediate r =>
      cases b with
      | register s => cases kind
      | immediate s => rw [Fin.ext (Disassembly.decimal_inj.mp operands)]

/-- At an address the mnemonic and the operands tell instructions apart. -/
theorem eq_of_line (left : first.Encodable) (right : second.Encodable)
    (mnemonics : first.mnemonic = second.mnemonic)
    (operands : first.operands pc = second.operands pc) : first = second := by
  have kind := cleared_eq_of_mnemonic left right mnemonics
  -- Instructions of different constructors stay different when they are cleared.
  cases first <;> cases second <;>
    simp only [cleared, reduceCtorEq, branch.injEq, load.injEq, store.injEq, opImm.injEq, op.injEq,
      csr.injEq, and_true, true_and] at kind <;>
    simp only [Instruction.operands, List.cons.injEq, Disassembly.name_inj, Disassembly.signed_inj,
      csr_name_inj, and_true] at operands
  case lui.lui | auipc.auipc =>
    rw [upper_inj left right] at operands
    rw [operands.1, operands.2]
  case jal.jal =>
    rw [@target_inj pc .j .j _ _ left right] at operands
    rw [operands.1, operands.2]
  case jalr.jalr => rw [operands.1, operands.2.1, operands.2.2]
  case branch.branch =>
    rw [@target_inj pc .b .b _ _ left right] at operands
    rw [kind, operands.1, operands.2.1, operands.2.2]
  case load.load | store.store => rw [kind, operands.1, operands.2.1, operands.2.2]
  case opImm.opImm =>
    obtain ⟨rfl, rfl⟩ := kind
    rw [printed_inj left right] at operands
    rw [operands.1, operands.2.1, operands.2.2]
  case op.op => rw [kind.1, kind.2, operands.1, operands.2.1, operands.2.2]
  case fence.fence | ecall.ecall | ebreak.ebreak | mret.mret => rfl
  case csr.csr =>
    rw [kind.1, operands.1, operands.2.1, source_ext kind.2 operands.2.2]

/-! Words that decode. -/

variable {word : UInt32} {instruction : Instruction}

/-- The selector of a shift leaves nothing of the immediate open but the amount. -/
theorem kind_of_selector {imm : Int} {narrow : Bool} (range : Format.i.Represents imm) :
    (AluOp.shiftSelector imm narrow = 0 → imm / 64 = 0) ∧
      (AluOp.shiftSelector imm narrow = AluOp.arithmeticSelector narrow → imm / 64 = 0x10) := by
  simp only [Format.Represents] at range
  cases narrow <;>
    simp only [AluOp.shiftSelector, AluOp.arithmeticSelector, Bool.false_eq_true, if_true,
      if_false] <;>
    omega

theorem kind_of_immediateForm {code : Nat} {imm : Int} {narrow : Bool} {op : AluOp}
    (range : Format.i.Represents imm)
    (found : AluOp.ofImmediateForm? code imm narrow = some op) :
    ∀ kind ∈ op.shiftKind?, imm / 64 = kind := by
  obtain ⟨logical, arithmetic⟩ := @kind_of_selector imm narrow range
  simp only [AluOp.ofImmediateForm?] at found
  split at found
  case h_2 =>
    split at found <;> cases found
    rename_i selected
    simpa [AluOp.shiftKind?] using logical selected
  case h_3 =>
    split at found
    · cases found
      rename_i selected
      simpa [AluOp.shiftKind?] using logical selected
    · split at found <;> cases found
      rename_i selected
      simpa [AluOp.shiftKind?] using arithmetic selected
  case h_9 => cases found
  all_goals
    cases found
    simp [AluOp.shiftKind?]

theorem ofWord_represented {opcode : Opcode}
    (known : Opcode.ofBits? (Fields.ofWord word).opcode = some opcode) :
    opcode.format.Represents (Fields.ofWord word).imm := by
  have imm : (Fields.ofWord word).imm = Word.immediate opcode.format word := by
    have major : Opcode.ofBits? (Word.opcode word) = some opcode := known
    simp only [Fields.ofWord, major]
  rw [imm]
  exact Format.immediate_represented _ word

theorem encodable_of_ofWord? (decoded : ofWord? word = some instruction) :
    instruction.Encodable := by
  obtain ⟨opcode, known, found⟩ := Option.bind_eq_some_iff.mp decoded
  have range := ofWord_represented known
  cases opcode with
  | lui | auipc | jal => cases found; exact range
  | miscMem => cases found; trivial
  | jalr =>
      dsimp only at found
      split at found <;> cases found
      trivial
  | branch =>
      obtain ⟨condition, _, rfl⟩ := Option.map_eq_some_iff.mp found
      exact range
  | load =>
      obtain ⟨form, minor, rfl⟩ := Option.map_eq_some_iff.mp found
      intro double
      unfold LoadForm.ofFunct3? at minor
      grind
  | store =>
      obtain ⟨width, _, rfl⟩ := Option.map_eq_some_iff.mp found
      trivial
  | opImm | opImm32 =>
      obtain ⟨op, selected, rfl⟩ := Option.map_eq_some_iff.mp found
      exact kind_of_immediateForm range selected
  | op | op32 =>
      obtain ⟨op, _, rfl⟩ := Option.map_eq_some_iff.mp found
      trivial
  | system =>
      rcases ofSystem?_cases found with privileged | ⟨_, _, _, _, _, _, rfl⟩
      · have listed := ofPrivileged?_cases privileged
        simp only [List.mem_cons, Prod.mk.injEq, List.not_mem_nil, or_false] at listed
        rcases listed with ⟨_, rfl⟩ | ⟨_, rfl⟩ | ⟨_, rfl⟩ <;> trivial
      · trivial

end Instruction

namespace Disassembly

theorem registerMnemonic?_of_form {fields : Fields} {narrow : Bool} {op : AluOp}
    (found : AluOp.ofRegisterForm? fields.funct3 fields.funct7 narrow = some op) :
    registerMnemonic? fields = some op.mnemonic := by
  unfold registerMnemonic?
  unfold AluOp.ofRegisterForm? at found
  split at found
  · rename_i multiply
    unfold AluOp.ofMultiply? at found
    split at found <;> cases found <;> simp_all [multiplyMnemonic, AluOp.mnemonic]
  · rename_i other
    unfold AluOp.ofBase? at found
    split at found <;> cases found <;> simp_all [baseMnemonic?, AluOp.mnemonic]

theorem branchMnemonic?_of_condition {code : Nat} {condition : Condition}
    (found : Condition.ofFunct3? code = some condition) :
    branchMnemonic? code = some condition.mnemonic := by
  unfold Condition.ofFunct3? at found
  split at found <;> cases found <;> rfl

theorem loadMnemonic?_of_form {code : Nat} {form : LoadForm}
    (found : LoadForm.ofFunct3? code = some form) : loadMnemonic? code = some form.mnemonic := by
  unfold LoadForm.ofFunct3? at found
  split at found <;> cases found <;> rfl

theorem storeMnemonic?_of_width {code : Nat} {width : Width}
    (found : Width.ofFunct3? code = some width) :
    storeMnemonic? code = some width.storeMnemonic := by
  unfold Width.ofFunct3? at found
  split at found <;> cases found <;> rfl

theorem csrForm_of_form {fields : Fields} {register : Csr} {action : CsrAction}
    {source : CsrSource} (known : Csr.ofAddress? fields.csr = some register)
    (form : Instruction.csrForm? fields.funct3 fields.rs1 = some (action, source)) :
    let mnemonic := action.mnemonic ++ source.suffix
    csrForm fields =
      s!"{mnemonic} {fields.rd.name}, {register.name}, {source.operand}" := by
  unfold Instruction.csrForm? at form
  simp only [csrForm, csrOperand, known]
  split at form <;> cases form <;> simp [CsrAction.mnemonic, CsrSource.suffix, CsrSource.operand, *]

theorem immediateForm_of_form {fields : Fields} {narrow : Bool} {op : AluOp}
    (range : Format.i.Represents fields.imm)
    (found : AluOp.ofImmediateForm? fields.funct3 fields.imm narrow = some op) :
    let mnemonic := op.immediateMnemonic ++ AluOp.suffix narrow
    immediateForm fields (AluOp.suffix narrow) =
      s!"{mnemonic} {fields.rd.name}, {fields.rs1.name}, {op.printed fields.imm}" := by
  have kind := Instruction.kind_of_immediateForm range found
  have amount : toString fields.shamt = toString (fields.imm % 64) := by
    have natural : ((fields.imm % 64).toNat : Int) = fields.imm % 64 := by omega
    rw [← natural]
    rfl
  simp only [AluOp.ofImmediateForm?] at found
  unfold immediateForm isArithmeticShift
  simp only [amount]
  split at found
  case h_2 minor =>
    split at found <;> cases found
    simp only [minor]
    rfl
  case h_3 minor =>
    split at found
    · cases found
      have bit : fields.imm / 0x400 % 2 = 0 := by
        have none : fields.imm / 64 = 0 := kind 0 rfl
        omega
      simp only [minor, bit]
      rfl
    · split at found <;> cases found
      have bit : fields.imm / 0x400 % 2 = 1 := by
        have selector : fields.imm / 64 = 0x10 := kind 0x10 rfl
        omega
      simp only [minor, bit]
      rfl
  case h_9 => cases found
  all_goals
    rename_i minor
    cases found
    simp only [minor]
    rfl

theorem system_of_minor {word : UInt32} (minor : (Fields.ofWord word).funct3 ≠ 0) :
    system (Fields.ofWord word) = csrForm (Fields.ofWord word) := by
  have other : word ∉ [Instruction.ecallWord, Instruction.ebreakWord, Instruction.mretWord] :=
    fun privileged => minor (Encoding.funct3_of_privileged privileged)
  simp only [List.mem_cons, List.not_mem_nil, or_false, not_or] at other
  exact (if_neg other.1).trans ((if_neg other.2.1).trans (if_neg other.2.2))

theorem csr_isToken (register : Csr) : IsToken register.name := by
  cases register <;> decide

theorem source_isToken (source : CsrSource) : IsToken source.operand := by
  cases source with
  | register r => exact name_isToken r
  | immediate r => exact decimal_isToken r.val

variable {word : UInt32} {instruction : Instruction}

theorem tokens_registerForm (narrow : Bool) (pc : UInt64) {fields : Fields}
    (head : IsToken instruction.mnemonic)
    (found : Instruction.ofRegister? narrow fields = some instruction) :
    tokens (registerForm fields (AluOp.suffix narrow)) =
      instruction.mnemonic :: instruction.operands pc := by
  obtain ⟨op, selected, rfl⟩ := Option.map_eq_some_iff.mp found
  simp only [registerForm, registerMnemonic?_of_form selected]
  exact tokens_triple head (name_isToken _) (name_isToken _) (name_isToken _)

theorem tokens_immediateForm (narrow : Bool) (pc : UInt64) {fields : Fields}
    (head : IsToken instruction.mnemonic) (range : Format.i.Represents fields.imm)
    (found : Instruction.ofImmediate? narrow fields = some instruction) :
    tokens (immediateForm fields (AluOp.suffix narrow)) =
      instruction.mnemonic :: instruction.operands pc := by
  obtain ⟨op, selected, rfl⟩ := Option.map_eq_some_iff.mp found
  rw [immediateForm_of_form range selected]
  exact tokens_triple head (name_isToken _) (name_isToken _) (signed_isToken _)

theorem tokens_system (pc : UInt64) (head : IsToken instruction.mnemonic)
    (found : Instruction.ofSystem? (Fields.ofWord word) = some instruction) :
    tokens (system (Fields.ofWord word)) = instruction.mnemonic :: instruction.operands pc := by
  rcases Instruction.ofSystem?_cases found with
    privileged | ⟨minor, register, action, source, known, form, rfl⟩
  · have listed := Instruction.ofPrivileged?_cases privileged
    simp only [List.mem_cons, Prod.mk.injEq, List.not_mem_nil, or_false] at listed
    rcases listed with ⟨raw, rfl⟩ | ⟨raw, rfl⟩ | ⟨raw, rfl⟩ <;>
      simp only [system, raw, Instruction.ecallWord, Instruction.ebreakWord,
        Instruction.mretWord] <;>
      exact tokens_token head
  · rw [system_of_minor minor, csrForm_of_form known form]
    exact tokens_triple head (name_isToken _) (csr_isToken register) (source_isToken source)

/-- The tokens of a word that decodes. -/
theorem tokens_disassemble (pc : UInt64) (decoded : Instruction.ofWord? word = some instruction) :
    tokens (disassemble pc word) = instruction.mnemonic :: instruction.operands pc := by
  have head := Instruction.mnemonic_isToken (Instruction.encodable_of_ofWord? decoded)
  obtain ⟨opcode, known, found⟩ := Option.bind_eq_some_iff.mp decoded
  have range := Instruction.ofWord_represented known
  simp only [disassemble, ofFields, known]
  cases opcode with
  | lui =>
      cases found
      rw [show "lui " = "lui" ++ " " by decide]
      exact tokens_pair head (name_isToken _) (hex_isToken _)
  | auipc =>
      cases found
      rw [show "auipc " = "auipc" ++ " " by decide]
      exact tokens_pair head (name_isToken _) (hex_isToken _)
  | jal =>
      cases found
      rw [show "jal " = "jal" ++ " " by decide]
      exact tokens_pair head (name_isToken _) (hex_isToken _)
  | jalr =>
      dsimp only at found
      split at found <;> cases found
      rw [show "jalr " = "jalr" ++ " " by decide]
      exact tokens_indexed head (name_isToken _) (signed_isToken _) (name_isToken _)
  | branch =>
      obtain ⟨condition, minor, rfl⟩ := Option.map_eq_some_iff.mp found
      simp only [branchMnemonic?_of_condition minor]
      exact tokens_triple head (name_isToken _) (name_isToken _) (hex_isToken _)
  | load =>
      obtain ⟨form, minor, rfl⟩ := Option.map_eq_some_iff.mp found
      simp only [loadMnemonic?_of_form minor]
      exact tokens_indexed head (name_isToken _) (signed_isToken _) (name_isToken _)
  | store =>
      obtain ⟨width, minor, rfl⟩ := Option.map_eq_some_iff.mp found
      simp only [storeMnemonic?_of_width minor]
      exact tokens_indexed head (name_isToken _) (signed_isToken _) (name_isToken _)
  | opImm => exact tokens_immediateForm false pc head range found
  | opImm32 => exact tokens_immediateForm true pc head range found
  | op => exact tokens_registerForm false pc head found
  | op32 => exact tokens_registerForm true pc head found
  | miscMem =>
      cases found
      exact tokens_token head
  | system => exact tokens_system pc head found

end Disassembly

/-- At an address a line stands for one instruction, if the words that show it decode at all. -/
theorem ofWord?_eq_of_disassemble {pc : UInt64} {first second : UInt32}
    (left : (Instruction.ofWord? first).isSome) (right : (Instruction.ofWord? second).isSome)
    (same : disassemble pc first = disassemble pc second) :
    Instruction.ofWord? first = Instruction.ofWord? second := by
  obtain ⟨one, decoded⟩ := Option.isSome_iff_exists.mp left
  obtain ⟨other, answered⟩ := Option.isSome_iff_exists.mp right
  have line := Disassembly.tokens_disassemble pc decoded
  rw [same, Disassembly.tokens_disassemble pc answered, List.cons.injEq] at line
  have equal : other = one :=
    Instruction.eq_of_line (Instruction.encodable_of_ofWord? answered)
      (Instruction.encodable_of_ofWord? decoded) line.1 line.2
  rw [decoded, answered, equal]

end HartScope
