import HartScope.Access
import HartScope.Hart.Csrs
import HartScope.Isa.Alu
import HartScope.Isa.Fields

/-!
The instructions that the hart executes, and the words that encode them.  A word that encodes none
is an invalid instruction, whatever the state of the hart.
-/

namespace HartScope

inductive Condition where
  | eq
  | ne
  | lt
  | ge
  | ltu
  | geu
deriving DecidableEq, Repr

namespace Condition

def ofFunct3? : Nat → Option Condition
  | 0 => some eq
  | 1 => some ne
  | 4 => some lt
  | 5 => some ge
  | 6 => some ltu
  | 7 => some geu
  | _ => none

def holds : Condition → UInt64 → UInt64 → Bool
  | eq, a, b => a == b
  | ne, a, b => a != b
  | lt, a, b => a.toInt64 < b.toInt64
  | ge, a, b => b.toInt64 ≤ a.toInt64
  | ltu, a, b => a < b
  | geu, a, b => b ≤ a

end Condition

/-- Width of a load and whether its value is sign-extended. -/
structure LoadForm where
  width : Width
  signed : Bool
deriving DecidableEq, Repr

namespace LoadForm

def ofFunct3? : Nat → Option LoadForm
  | 0 => some ⟨.byte, true⟩
  | 1 => some ⟨.half, true⟩
  | 2 => some ⟨.word, true⟩
  | 3 => some ⟨.double, false⟩
  | 4 => some ⟨.byte, false⟩
  | 5 => some ⟨.half, false⟩
  | 6 => some ⟨.word, false⟩
  | _ => none

def extend (form : LoadForm) (value : UInt64) : UInt64 :=
  if form.signed then
    let shift : UInt64 := UInt64.ofNat (64 - form.width.bytes * 8)
    ((value <<< shift).toInt64 >>> shift.toInt64).toUInt64
  else value

end LoadForm

def Width.ofFunct3? : Nat → Option Width
  | 0 => some .byte
  | 1 => some .half
  | 2 => some .word
  | 3 => some .double
  | _ => none

inductive CsrAction where
  | write
  | setBits
  | clearBits
deriving DecidableEq, Repr

/-- Where a CSR instruction takes its operand from: a register, or the five bits of its number. -/
inductive CsrSource where
  | register (r : Reg)
  | immediate (r : Reg)
deriving DecidableEq, Repr

def CsrSource.field : CsrSource → Reg
  | register r => r
  | immediate r => r

inductive Instruction where
  | lui (rd : Reg) (imm : Int)
  | auipc (rd : Reg) (imm : Int)
  | jal (rd : Reg) (imm : Int)
  | jalr (rd rs1 : Reg) (imm : Int)
  | branch (condition : Condition) (rs1 rs2 : Reg) (imm : Int)
  | load (form : LoadForm) (rd rs1 : Reg) (imm : Int)
  | store (width : Width) (rs1 rs2 : Reg) (imm : Int)
  | opImm (op : AluOp) (narrow : Bool) (rd rs1 : Reg) (imm : Int)
  | op (op : AluOp) (narrow : Bool) (rd rs1 rs2 : Reg)
  /-- Orders nothing on a single in-order hart. -/
  | fence
  | ecall
  | ebreak
  | mret
  | csr (action : CsrAction) (csr : Csr) (rd : Reg) (source : CsrSource)
deriving DecidableEq, Repr

namespace Instruction

def ecallWord : UInt32 := 0x00000073
def ebreakWord : UInt32 := 0x00100073
def mretWord : UInt32 := 0x30200073

def ofPrivileged? (word : UInt32) : Option Instruction :=
  if word = ecallWord then some ecall
  else if word = ebreakWord then some ebreak
  else if word = mretWord then some mret
  else none

def csrForm? (funct3 : Nat) (field : Reg) : Option (CsrAction × CsrSource) :=
  match funct3 with
  | 1 => some (.write, .register field)
  | 2 => some (.setBits, .register field)
  | 3 => some (.clearBits, .register field)
  | 5 => some (.write, .immediate field)
  | 6 => some (.setBits, .immediate field)
  | 7 => some (.clearBits, .immediate field)
  | _ => none

def ofSystem? (fields : Fields) : Option Instruction :=
  if fields.funct3 = 0 then ofPrivileged? fields.raw
  else do
    let register ← Csr.ofAddress? fields.csr
    let (action, source) ← csrForm? fields.funct3 fields.rs1
    return csr action register fields.rd source

def ofImmediate? (narrow : Bool) (fields : Fields) : Option Instruction :=
  (AluOp.ofImmediateForm? fields.funct3 fields.imm narrow).map fun operation =>
    opImm operation narrow fields.rd fields.rs1 fields.imm

def ofRegister? (narrow : Bool) (fields : Fields) : Option Instruction :=
  (AluOp.ofRegisterForm? fields.funct3 fields.funct7 narrow).map fun operation =>
    op operation narrow fields.rd fields.rs1 fields.rs2

def ofFields? (fields : Fields) : Option Instruction :=
  (Opcode.ofBits? fields.opcode).bind fun
    | .lui => some (lui fields.rd fields.imm)
    | .auipc => some (auipc fields.rd fields.imm)
    | .jal => some (jal fields.rd fields.imm)
    | .jalr => if fields.funct3 = 0 then some (jalr fields.rd fields.rs1 fields.imm) else none
    | .branch => (Condition.ofFunct3? fields.funct3).map fun condition =>
        branch condition fields.rs1 fields.rs2 fields.imm
    | .load => (LoadForm.ofFunct3? fields.funct3).map fun form =>
        load form fields.rd fields.rs1 fields.imm
    | .store => (Width.ofFunct3? fields.funct3).map fun width =>
        store width fields.rs1 fields.rs2 fields.imm
    | .opImm => ofImmediate? false fields
    | .opImm32 => ofImmediate? true fields
    | .op => ofRegister? false fields
    | .op32 => ofRegister? true fields
    | .miscMem => some fence
    | .system => ofSystem? fields

def ofWord? (word : UInt32) : Option Instruction :=
  ofFields? (Fields.ofWord word)

end Instruction

end HartScope
