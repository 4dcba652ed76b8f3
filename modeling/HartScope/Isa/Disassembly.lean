import HartScope.Hart.Csrs
import HartScope.Isa.Fields

/-!
Assembly text of a word.  Branch and jump targets are absolute addresses, CSRs are named where they
have a name.  A listing follows the major opcode and the fields that choose the mnemonic; it does
not ask whether the hart would execute the word.
-/

namespace HartScope.Disassembly

def unknown (word : UInt32) : String :=
  s!"unknown ({Numeral.hexPadded 8 word.toNat})"

def multiplyMnemonic : Nat → String
  | 0 => "mul"
  | 1 => "mulh"
  | 2 => "mulhsu"
  | 3 => "mulhu"
  | 4 => "div"
  | 5 => "divu"
  | 6 => "rem"
  | _ => "remu"

def baseMnemonic? (funct3 funct7 : Nat) : Option String :=
  match funct3, funct7 with
  | 0, 0x00 => some "add"
  | 0, 0x20 => some "sub"
  | 1, _ => some "sll"
  | 2, _ => some "slt"
  | 3, _ => some "sltu"
  | 4, _ => some "xor"
  | 5, 0x00 => some "srl"
  | 5, 0x20 => some "sra"
  | 6, _ => some "or"
  | 7, _ => some "and"
  | _, _ => none

def registerMnemonic? (fields : Fields) : Option String :=
  if fields.funct7 = 1 then some (multiplyMnemonic fields.funct3)
  else baseMnemonic? fields.funct3 fields.funct7

def registerForm (fields : Fields) (suffix : String) : String :=
  match registerMnemonic? fields with
  | none => unknown fields.raw
  | some mnemonic =>
      s!"{mnemonic}{suffix} {fields.rd.name}, {fields.rs1.name}, {fields.rs2.name}"

/-- Bit 10 of the word's immediate tells an arithmetic right shift from a logical one. -/
def isArithmeticShift (fields : Fields) : Bool :=
  fields.imm / 0x400 % 2 != 0

def immediateForm (fields : Fields) (suffix : String) : String :=
  let arithmetic (mnemonic : String) : String :=
    s!"{mnemonic}{suffix} {fields.rd.name}, {fields.rs1.name}, {fields.imm}"
  let shift (mnemonic : String) : String :=
    s!"{mnemonic}{suffix} {fields.rd.name}, {fields.rs1.name}, {fields.shamt}"
  match fields.funct3 with
  | 0 => arithmetic "addi"
  | 1 => shift "slli"
  | 2 => arithmetic "slti"
  | 3 => arithmetic "sltiu"
  | 4 => arithmetic "xori"
  | 6 => arithmetic "ori"
  | 7 => arithmetic "andi"
  | _ => shift (if isArithmeticShift fields then "srai" else "srli")

def loadMnemonic? : Nat → Option String
  | 0 => some "lb"
  | 1 => some "lh"
  | 2 => some "lw"
  | 3 => some "ld"
  | 4 => some "lbu"
  | 5 => some "lhu"
  | 6 => some "lwu"
  | _ => none

def storeMnemonic? : Nat → Option String
  | 0 => some "sb"
  | 1 => some "sh"
  | 2 => some "sw"
  | 3 => some "sd"
  | _ => none

def branchMnemonic? : Nat → Option String
  | 0 => some "beq"
  | 1 => some "bne"
  | 4 => some "blt"
  | 5 => some "bge"
  | 6 => some "bltu"
  | 7 => some "bgeu"
  | _ => none

def upper (fields : Fields) : String :=
  Numeral.hex (fields.imm / 0x1000 % 0x100000).toNat

def target (pc : UInt64) (fields : Fields) : String :=
  Numeral.hex (pc + UInt64.ofInt fields.imm).toNat

def csrOperand (address : Nat) : String :=
  match Csr.ofAddress? address with
  | some csr => csr.name
  | none => Numeral.hexPadded 3 address

def csrForm (fields : Fields) : String :=
  let operands (mnemonic source : String) : String :=
    s!"{mnemonic} {fields.rd.name}, {csrOperand fields.csr}, {source}"
  match fields.funct3 with
  | 1 => operands "csrrw" fields.rs1.name
  | 2 => operands "csrrs" fields.rs1.name
  | 3 => operands "csrrc" fields.rs1.name
  | 5 => operands "csrrwi" (toString fields.rs1.val)
  | 6 => operands "csrrsi" (toString fields.rs1.val)
  | 7 => operands "csrrci" (toString fields.rs1.val)
  | _ => unknown fields.raw

def system (fields : Fields) : String :=
  if fields.raw = 0x00000073 then "ecall"
  else if fields.raw = 0x00100073 then "ebreak"
  else if fields.raw = 0x30200073 then "mret"
  else csrForm fields

def ofFields (pc : UInt64) (fields : Fields) : String :=
  let orUnknown (mnemonic : Option String) (render : String → String) : String :=
    match mnemonic with
    | some text => render text
    | none => unknown fields.raw
  match Opcode.ofBits? fields.opcode with
  | none => unknown fields.raw
  | some .op => registerForm fields ""
  | some .op32 => registerForm fields "w"
  | some .opImm => immediateForm fields ""
  | some .opImm32 => immediateForm fields "w"
  | some .load => orUnknown (loadMnemonic? fields.funct3) fun mnemonic =>
      s!"{mnemonic} {fields.rd.name}, {fields.imm}({fields.rs1.name})"
  | some .store => orUnknown (storeMnemonic? fields.funct3) fun mnemonic =>
      s!"{mnemonic} {fields.rs2.name}, {fields.imm}({fields.rs1.name})"
  | some .branch => orUnknown (branchMnemonic? fields.funct3) fun mnemonic =>
      s!"{mnemonic} {fields.rs1.name}, {fields.rs2.name}, {target pc fields}"
  | some .lui => s!"lui {fields.rd.name}, {upper fields}"
  | some .auipc => s!"auipc {fields.rd.name}, {upper fields}"
  | some .jal => s!"jal {fields.rd.name}, {target pc fields}"
  | some .jalr => s!"jalr {fields.rd.name}, {fields.imm}({fields.rs1.name})"
  | some .miscMem => "fence"
  | some .system => system fields

end Disassembly

/-- Assembly text of `word` at address `pc`. -/
def disassemble (pc : UInt64) (word : UInt32) : String :=
  Disassembly.ofFields pc (Fields.ofWord word)

end HartScope
