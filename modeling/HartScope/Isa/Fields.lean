import HartScope.Isa.Register

/-!
The fields of a 32-bit instruction word. A field is a quotient and a remainder of the word by
powers of two; an immediate is the signed integer whose binary digits are gathered from the places
that the instruction format assigns to it.
-/

namespace HartScope

/-- Major opcodes, the low seven bits of a word. -/
inductive Opcode where
  | load
  | miscMem
  | opImm
  | auipc
  | opImm32
  | store
  | op
  | lui
  | op32
  | branch
  | jalr
  | jal
  | system
deriving DecidableEq, Repr

namespace Opcode

def bits : Opcode → Nat
  | load => 0x03
  | miscMem => 0x0F
  | opImm => 0x13
  | auipc => 0x17
  | opImm32 => 0x1B
  | store => 0x23
  | op => 0x33
  | lui => 0x37
  | op32 => 0x3B
  | branch => 0x63
  | jalr => 0x67
  | jal => 0x6F
  | system => 0x73

def ofBits? : Nat → Option Opcode
  | 0x03 => some load
  | 0x0F => some miscMem
  | 0x13 => some opImm
  | 0x17 => some auipc
  | 0x1B => some opImm32
  | 0x23 => some store
  | 0x33 => some op
  | 0x37 => some lui
  | 0x3B => some op32
  | 0x63 => some branch
  | 0x67 => some jalr
  | 0x6F => some jal
  | 0x73 => some system
  | _ => none

theorem ofBits?_bits (opcode : Opcode) : ofBits? opcode.bits = some opcode := by
  cases opcode <;> rfl

end Opcode

/-- Where a word keeps its immediate. -/
inductive Format where
  | r
  | i
  | s
  | b
  | u
  | j
deriving DecidableEq, Repr

def Opcode.format : Opcode → Format
  | opImm | opImm32 | load | jalr => .i
  | store => .s
  | branch => .b
  | lui | auipc => .u
  | jal => .j
  | op | op32 | miscMem | system => .r

namespace Word

/-- The `length` bits of `word` that start at bit `low`. -/
@[inline] def field (word : UInt32) (low length : Nat) : Nat :=
  (word.toNat >>> low) % (1 <<< length)

theorem field_lt (word : UInt32) (low length : Nat) : field word low length < 1 <<< length :=
  Nat.mod_lt _ (Nat.one_shiftLeft length ▸ Nat.two_pow_pos length)

def opcode (word : UInt32) : Nat := field word 0 7
def rd (word : UInt32) : Reg := ⟨field word 7 5, field_lt word 7 5⟩
def funct3 (word : UInt32) : Nat := field word 12 3
def rs1 (word : UInt32) : Reg := ⟨field word 15 5, field_lt word 15 5⟩
def rs2 (word : UInt32) : Reg := ⟨field word 20 5, field_lt word 20 5⟩
def funct7 (word : UInt32) : Nat := field word 25 7
def csr (word : UInt32) : Nat := field word 20 12

/-- Reads `value` as a two's complement number of `bits + 1` bits. -/
@[inline] def signed (bits value : Nat) : Int :=
  if value < 1 <<< bits then value else value - (1 <<< (bits + 1) : Nat)

def immI (word : UInt32) : Int :=
  signed 11 (field word 20 12)

def immS (word : UInt32) : Int :=
  signed 11 (field word 25 7 <<< 5 + field word 7 5)

def immB (word : UInt32) : Int :=
  signed 12 (field word 31 1 <<< 12 + field word 7 1 <<< 11 + field word 25 6 <<< 5 + field word 8 4 <<< 1)

def immU (word : UInt32) : Int :=
  signed 31 (field word 12 20 <<< 12)

def immJ (word : UInt32) : Int :=
  signed 20 (field word 31 1 <<< 20 + field word 12 8 <<< 12 + field word 20 1 <<< 11 +
    field word 21 10 <<< 1)

/-- The immediate in `format`; a register-form word has none. -/
def immediate (format : Format) (word : UInt32) : Int :=
  match format with
  | .r => 0
  | .i => immI word
  | .s => immS word
  | .b => immB word
  | .u => immU word
  | .j => immJ word

end Word

/-- A word taken apart. Words without a known opcode carry no immediate. -/
structure Fields where
  raw : UInt32
  opcode : Nat
  rd : Reg
  rs1 : Reg
  rs2 : Reg
  funct3 : Nat
  funct7 : Nat
  imm : Int
deriving DecidableEq, Repr

namespace Fields

def ofWord (word : UInt32) : Fields where
  raw := word
  opcode := Word.opcode word
  rd := Word.rd word
  rs1 := Word.rs1 word
  rs2 := Word.rs2 word
  funct3 := Word.funct3 word
  funct7 := Word.funct7 word
  imm := match Opcode.ofBits? (Word.opcode word) with
    | some opcode => Word.immediate opcode.format word
    | none => 0

def csr (fields : Fields) : Nat :=
  Word.csr fields.raw

/-- The shift amount in the low six bits of the immediate. -/
def shamt (fields : Fields) : Nat :=
  (fields.imm % 64).toNat

end Fields

end HartScope
