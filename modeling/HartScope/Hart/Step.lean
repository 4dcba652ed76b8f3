import HartScope.Bus
import HartScope.Hart.Basic
import HartScope.Isa.Instruction

/-!
One instruction of the hart.  A step fetches the word at the program counter, reads it as an
instruction and executes it.  Everything that can go wrong goes wrong before the first write, so a
step that does not retire leaves the hart as it was.
-/

namespace HartScope

inductive Retirement where
  | next
  /-- The program has halted with this value. -/
  | halt (value : UInt64)
deriving DecidableEq, Repr

structure Completion (δ : Type) where
  result : Except Fault Retirement
  hart : Hart
  bus : Bus δ
  output : List Output := []

namespace Hart

variable {δ : Type} [Device δ]

def address (hart : Hart) (base : Reg) (imm : Int) : UInt64 :=
  hart.get base + UInt64.ofInt imm

def operand (hart : Hart) : CsrSource → UInt64
  | .register r => hart.get r
  | .immediate r => UInt64.ofNat r.val

/-- The CSR file after a CSR instruction.  Setting or clearing with source field zero is no write. -/
def updatedCsrs (hart : Hart) (action : CsrAction) (csr : Csr) (source : CsrSource) : Csrs :=
  let old := hart.csrs.get csr
  let value := hart.operand source
  match action with
  | .write => hart.csrs.set csr value
  | .setBits => if source.field = Reg.zero then hart.csrs else hart.csrs.set csr (old ||| value)
  | .clearBits => if source.field = Reg.zero then hart.csrs else hart.csrs.set csr (old &&& ~~~value)

def environmentCallCause : UInt64 := 11

/-- A trap handler is installed and the selector is a service number or minus one. -/
def trapSupported (hart : Hart) : Bool :=
  hart.csrs.mtvec != 0 && (-1 : Int64) ≤ (hart.get Reg.a7).toInt64

def executeLoad (hart : Hart) (bus : Bus δ) (form : LoadForm) (rd rs1 : Reg) (imm : Int) :
    Completion δ :=
  let reply := bus.read (hart.address rs1 imm) form.width .read
  match reply.result with
  | .error cause => ⟨.error (.memory hart.pc cause), hart, reply.bus, reply.output⟩
  | .ok value => ⟨.ok .next, (hart.set rd (form.extend value)).advance, reply.bus, reply.output⟩

def executeStore (hart : Hart) (bus : Bus δ) (width : Width) (rs1 rs2 : Reg) (imm : Int) :
    Completion δ :=
  let reply := bus.write (hart.address rs1 imm) width (hart.get rs2 &&& width.mask)
  match reply.result with
  | .error cause => ⟨.error (.memory hart.pc cause), hart, reply.bus, reply.output⟩
  | .ok () => ⟨.ok .next, hart.advance, reply.bus, reply.output⟩

def executeEnvironmentCall (hart : Hart) (bus : Bus δ) : Completion δ :=
  let selector := hart.get Reg.a7
  if hart.trapSupported then
    ⟨.ok .next, hart.enterTrap environmentCallCause, bus,
      [.log (.environmentCall hart.pc selector)]⟩
  else ⟨.error (.unsupportedTrap hart.pc selector hart.csrs.mtvec), hart, bus, []⟩

def execute (hart : Hart) (bus : Bus δ) : Instruction → Completion δ
  | .lui rd imm => ⟨.ok .next, (hart.set rd (UInt64.ofInt imm)).advance, bus, []⟩
  | .auipc rd imm => ⟨.ok .next, (hart.set rd (hart.pc + UInt64.ofInt imm)).advance, bus, []⟩
  | .jal rd imm =>
      ⟨.ok .next, (hart.set rd hart.successor).jump (hart.pc + UInt64.ofInt imm), bus, []⟩
  | .jalr rd rs1 imm =>
      let target := hart.address rs1 imm &&& ~~~1
      ⟨.ok .next, (hart.set rd hart.successor).jump target, bus, []⟩
  | .branch condition rs1 rs2 imm =>
      let taken := condition.holds (hart.get rs1) (hart.get rs2)
      let after := if taken then hart.jump (hart.pc + UInt64.ofInt imm) else hart.advance
      ⟨.ok .next, after, bus, []⟩
  | .load form rd rs1 imm => hart.executeLoad bus form rd rs1 imm
  | .store width rs1 rs2 imm => hart.executeStore bus width rs1 rs2 imm
  | .opImm op narrow rd rs1 imm =>
      let value := op.execute narrow (hart.get rs1) (UInt64.ofInt imm)
      ⟨.ok .next, (hart.set rd value).advance, bus, []⟩
  | .op op narrow rd rs1 rs2 =>
      let value := op.execute narrow (hart.get rs1) (hart.get rs2)
      ⟨.ok .next, (hart.set rd value).advance, bus, []⟩
  | .fence => ⟨.ok .next, hart.advance, bus, []⟩
  | .ecall => hart.executeEnvironmentCall bus
  | .ebreak => ⟨.ok (.halt (hart.get Reg.a0)), hart.advance, bus, []⟩
  | .mret => ⟨.ok .next, { hart with csrs := hart.csrs.leaveTrap, pc := hart.csrs.mepc }, bus, []⟩
  | .csr action csr rd source =>
      let updated := { hart with csrs := hart.updatedCsrs action csr source }
      ⟨.ok .next, (updated.set rd (hart.csrs.get csr)).advance, bus, []⟩

end Hart

/-- Where a step was and where it would go on. -/
structure StepContext where
  pc : UInt64
  word : UInt32
  /-- Address of the instruction that follows in memory. -/
  successor : UInt64
  /-- Address at which execution continues. -/
  continuation : UInt64
deriving DecidableEq, Repr

namespace StepContext

def unfetched (pc : UInt64) : StepContext :=
  ⟨pc, 0, pc, pc⟩

def fetched (pc : UInt64) (word : UInt32) (result : Except Fault Retirement)
    (target : UInt64) : StepContext :=
  let continuation := match result with
    | .ok _ => target
    | .error _ => pc + 4
  ⟨pc, word, pc + 4, continuation⟩

end StepContext

structure Step (δ : Type) extends Completion δ where
  context : StepContext

namespace Hart

variable {δ : Type} [Device δ]

def executeWord (hart : Hart) (bus : Bus δ) (word : UInt32) : Completion δ :=
  match Instruction.ofWord? word with
  | none => ⟨.error (.invalidInstruction hart.pc word), hart, bus, []⟩
  | some instruction => hart.execute bus instruction

def step (hart : Hart) (bus : Bus δ) : Step δ :=
  let fetch := bus.read hart.pc .word .fetch
  match fetch.result with
  | .error cause =>
      { result := .error (.memory hart.pc cause)
        hart := hart
        bus := fetch.bus
        output := fetch.output
        context := .unfetched hart.pc }
  | .ok value =>
      let word := value.toUInt32
      let done := hart.executeWord fetch.bus word
      { done with
        output := fetch.output ++ done.output
        context := .fetched hart.pc word done.result done.hart.pc }

end Hart

end HartScope
