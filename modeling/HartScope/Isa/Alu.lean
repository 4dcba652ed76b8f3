/-!
Integer operations of the hart. An operation acts on whole 64-bit words or, in its word form, on
the low halves, with the 32-bit result sign-extended. Division by zero gives a quotient of all ones
and the dividend as remainder; the one signed overflow gives the dividend and remainder zero.
-/

namespace HartScope

inductive AluOp where
  | add
  | sub
  | sll
  | slt
  | sltu
  | xor
  | srl
  | sra
  | or
  | and
  | mul
  | mulh
  | mulhsu
  | mulhu
  | div
  | divu
  | rem
  | remu
deriving DecidableEq, Repr

namespace AluOp

def all : List AluOp :=
  [add, sub, sll, slt, sltu, xor, srl, sra, or, and, mul, mulh, mulhsu, mulhu, div, divu, rem, remu]

/-- The multiply and divide group. Its word form has no high products. -/
def ofMultiply? (funct3 : Nat) (narrow : Bool) : Option AluOp :=
  match funct3, narrow with
  | 0, _ => some mul
  | 1, false => some mulh
  | 2, false => some mulhsu
  | 3, false => some mulhu
  | 4, _ => some div
  | 5, _ => some divu
  | 6, _ => some rem
  | 7, _ => some remu
  | _, _ => none

/-- The base group, whose `funct7` is zero or, for subtraction and arithmetic shifts, `0x20`. -/
def ofBase? (funct3 funct7 : Nat) (narrow : Bool) : Option AluOp :=
  match funct3, funct7, narrow with
  | 0, 0x00, _ => some add
  | 0, 0x20, _ => some sub
  | 1, 0x00, _ => some sll
  | 5, 0x00, _ => some srl
  | 5, 0x20, _ => some sra
  | 2, 0x00, false => some slt
  | 3, 0x00, false => some sltu
  | 4, 0x00, false => some xor
  | 6, 0x00, false => some or
  | 7, 0x00, false => some and
  | _, _, _ => none

def ofRegisterForm? (funct3 funct7 : Nat) (narrow : Bool) : Option AluOp :=
  if funct7 = 1 then ofMultiply? funct3 narrow else ofBase? funct3 funct7 narrow

/-- What stands above the shift amount in an immediate: six bits of amount, or five in word form. -/
def shiftSelector (imm : Int) (narrow : Bool) : Nat :=
  (imm / (if narrow then 32 else 64) % 128).toNat

/-- The selector of an arithmetic right shift. -/
def arithmeticSelector (narrow : Bool) : Nat :=
  if narrow then 0x20 else 0x10

def ofImmediateForm? (funct3 : Nat) (imm : Int) (narrow : Bool) : Option AluOp :=
  let selector := shiftSelector imm narrow
  match funct3, narrow with
  | 0, _ => some add
  | 1, _ => if selector = 0 then some sll else none
  | 5, _ =>
      if selector = 0 then some srl
      else if selector = arithmeticSelector narrow then some sra
      else none
  | 2, false => some slt
  | 3, false => some sltu
  | 4, false => some xor
  | 6, false => some or
  | 7, false => some and
  | _, _ => none

def signExtendWord (value : UInt32) : UInt64 :=
  value.toInt32.toInt64.toUInt64

def ofBool (holds : Bool) : UInt64 :=
  if holds then 1 else 0

def highProduct (a b : Int) : UInt64 :=
  UInt64.ofInt ((a * b) / UInt64.size)

def executeDouble : AluOp → UInt64 → UInt64 → UInt64
  | add, a, b => a + b
  | sub, a, b => a - b
  | sll, a, b => a <<< (b &&& 0x3F)
  | srl, a, b => a >>> (b &&& 0x3F)
  | sra, a, b => (a.toInt64 >>> (b &&& 0x3F).toInt64).toUInt64
  | slt, a, b => ofBool (a.toInt64 < b.toInt64)
  | sltu, a, b => ofBool (a < b)
  | xor, a, b => a ^^^ b
  | or, a, b => a ||| b
  | and, a, b => a &&& b
  | mul, a, b => a * b
  | mulh, a, b => highProduct a.toInt64.toInt b.toInt64.toInt
  | mulhsu, a, b => highProduct a.toInt64.toInt b.toNat
  | mulhu, a, b => highProduct a.toNat b.toNat
  | div, a, b => if b = 0 then 0xFFFFFFFFFFFFFFFF else (a.toInt64 / b.toInt64).toUInt64
  | divu, a, b => if b = 0 then 0xFFFFFFFFFFFFFFFF else a / b
  | rem, a, b => if b = 0 then a else (a.toInt64 % b.toInt64).toUInt64
  | remu, a, b => if b = 0 then a else a % b

/-- Word form. An operation without a word form of its own acts on the whole words. -/
def executeWord (op : AluOp) (a b : UInt64) : UInt64 :=
  let x := a.toUInt32
  let y := b.toUInt32
  match op with
  | add => signExtendWord (x + y)
  | sub => signExtendWord (x - y)
  | sll => signExtendWord (x <<< (y &&& 0x1F))
  | srl => signExtendWord (x >>> (y &&& 0x1F))
  | sra => signExtendWord (x.toInt32 >>> (y &&& 0x1F).toInt32).toUInt32
  | mul => signExtendWord (x * y)
  | div =>
      if y = 0 then 0xFFFFFFFFFFFFFFFF else signExtendWord (x.toInt32 / y.toInt32).toUInt32
  | divu => if y = 0 then 0xFFFFFFFFFFFFFFFF else signExtendWord (x / y)
  | rem => if y = 0 then signExtendWord x else signExtendWord (x.toInt32 % y.toInt32).toUInt32
  | remu => if y = 0 then signExtendWord x else signExtendWord (x % y)
  | slt | sltu | xor | or | and | mulh | mulhsu | mulhu => executeDouble op a b

def execute (op : AluOp) (narrow : Bool) (a b : UInt64) : UInt64 :=
  if narrow then executeWord op a b else executeDouble op a b

end AluOp

end HartScope
