/-!
Machine-mode control and status registers, with the trap transitions on them. `misa` and `mhartid`
can be written, but keep their value.
-/

namespace HartScope

inductive Csr where
  | mstatus
  | misa
  | mie
  | mtvec
  | mscratch
  | mepc
  | mcause
  | mtval
  | mip
  | mhartid
deriving DecidableEq, Repr

namespace Csr

def all : List Csr :=
  [mstatus, misa, mie, mtvec, mscratch, mepc, mcause, mtval, mip, mhartid]

def address : Csr → Nat
  | mstatus => 0x300
  | misa => 0x301
  | mie => 0x304
  | mtvec => 0x305
  | mscratch => 0x340
  | mepc => 0x341
  | mcause => 0x342
  | mtval => 0x343
  | mip => 0x344
  | mhartid => 0xF14

def name : Csr → String
  | mstatus => "mstatus"
  | misa => "misa"
  | mie => "mie"
  | mtvec => "mtvec"
  | mscratch => "mscratch"
  | mepc => "mepc"
  | mcause => "mcause"
  | mtval => "mtval"
  | mip => "mip"
  | mhartid => "mhartid"

def ofAddress? (address : Nat) : Option Csr :=
  all.find? (·.address == address)

def ofName? (name : String) : Option Csr :=
  all.find? (·.name == name)

theorem mem_all (csr : Csr) : csr ∈ all := by
  cases csr <;> decide

theorem ofAddress?_address (csr : Csr) : ofAddress? csr.address = some csr := by
  cases csr <;> rfl

theorem address_of_ofAddress? {address : Nat} {csr : Csr} (found : ofAddress? address = some csr) :
    csr.address = address := by
  have := List.find?_some found
  simpa using this

end Csr

/-- The registers that hold a value; `mhartid` is always zero and needs no cell. -/
structure Csrs where
  mstatus : UInt64 := 0xA00001800
  misa : UInt64 := 0x8000000000001100
  mie : UInt64 := 0
  mtvec : UInt64 := 0
  mscratch : UInt64 := 0
  mepc : UInt64 := 0
  mcause : UInt64 := 0
  mtval : UInt64 := 0
  mip : UInt64 := 0
deriving DecidableEq, Repr

namespace Csrs

def get (csrs : Csrs) : Csr → UInt64
  | .mstatus => csrs.mstatus
  | .misa => csrs.misa
  | .mie => csrs.mie
  | .mtvec => csrs.mtvec
  | .mscratch => csrs.mscratch
  | .mepc => csrs.mepc
  | .mcause => csrs.mcause
  | .mtval => csrs.mtval
  | .mip => csrs.mip
  | .mhartid => 0

def set (csrs : Csrs) (csr : Csr) (value : UInt64) : Csrs :=
  match csr with
  | .mstatus => { csrs with mstatus := value }
  | .mie => { csrs with mie := value }
  | .mtvec => { csrs with mtvec := value }
  | .mscratch => { csrs with mscratch := value }
  | .mepc => { csrs with mepc := value }
  | .mcause => { csrs with mcause := value }
  | .mtval => { csrs with mtval := value }
  | .mip => { csrs with mip := value }
  | .misa | .mhartid => csrs

/-- The value at an address, if a register stands there. -/
def read? (csrs : Csrs) : (address : Nat) → Option UInt64
  | 0x300 => some csrs.mstatus
  | 0x301 => some csrs.misa
  | 0x304 => some csrs.mie
  | 0x305 => some csrs.mtvec
  | 0x340 => some csrs.mscratch
  | 0x341 => some csrs.mepc
  | 0x342 => some csrs.mcause
  | 0x343 => some csrs.mtval
  | 0x344 => some csrs.mip
  | 0xF14 => some 0
  | _ => none

/-- The registers after a write to an address, if a register stands there. -/
def write? (csrs : Csrs) (address : Nat) (value : UInt64) : Option Csrs :=
  match address with
  | 0x300 => some { csrs with mstatus := value }
  | 0x304 => some { csrs with mie := value }
  | 0x305 => some { csrs with mtvec := value }
  | 0x340 => some { csrs with mscratch := value }
  | 0x341 => some { csrs with mepc := value }
  | 0x342 => some { csrs with mcause := value }
  | 0x343 => some { csrs with mtval := value }
  | 0x344 => some { csrs with mip := value }
  | 0x301 | 0xF14 => some csrs
  | _ => none

/-- Registers whose writes are dropped. -/
def ReadOnly (csr : Csr) : Prop :=
  csr = .misa ∨ csr = .mhartid

theorem get_set_same (csrs : Csrs) {csr : Csr} (writable : ¬ ReadOnly csr) (value : UInt64) :
    (csrs.set csr value).get csr = value := by
  cases csr <;> simp_all [ReadOnly, set, get]

theorem get_set_ne (csrs : Csrs) {csr other : Csr} (distinct : other ≠ csr) (value : UInt64) :
    (csrs.set csr value).get other = csrs.get other := by
  cases csr <;> cases other <;> simp_all [set, get]

theorem set_readOnly (csrs : Csrs) {csr : Csr} (fixed : ReadOnly csr) (value : UInt64) :
    csrs.set csr value = csrs := by
  rcases fixed with rfl | rfl <;> rfl

/-- Global interrupt enable, bit 3 of `mstatus`. -/
def mieBit : UInt64 := 0x8

/-- The enable bit saved on trap entry, bit 7 of `mstatus`. -/
def mpieBit : UInt64 := 0x80

/-- The mode saved on trap entry, bits 11 and 12 of `mstatus`; machine mode sets both. -/
def mppBits : UInt64 := 0x1800

def interruptsEnabled (csrs : Csrs) : Bool :=
  csrs.mstatus &&& mieBit != 0

/-- Trap entry. Interrupts are disabled and the enable bit and the mode are saved. -/
def enterTrap (csrs : Csrs) (cause epc : UInt64) : Csrs :=
  let cleared := csrs.mstatus &&& ~~~(mieBit ||| mpieBit ||| mppBits)
  let saved := if csrs.interruptsEnabled then mpieBit else 0
  { csrs with mepc := epc, mcause := cause, mstatus := cleared ||| saved ||| mppBits }

/-- Trap return. The saved enable bit is restored and the saved mode becomes user mode. -/
def leaveTrap (csrs : Csrs) : Csrs :=
  let cleared := csrs.mstatus &&& ~~~(mieBit ||| mppBits)
  let restored := if csrs.mstatus &&& mpieBit != 0 then mieBit else 0
  { csrs with mstatus := cleared ||| restored ||| mpieBit }

/-- Index of the least significant set bit, searched from `start` over `count` bits. -/
def lowestBit (value : UInt64) : (count start : Nat) → Nat
  | 0, start => start
  | count + 1, start =>
      if value.toNat.testBit start then start else lowestBit value count (start + 1)

def interruptFlag : UInt64 := 0x8000000000000000

/-- The enabled pending interrupt of lowest number, as a cause. -/
def pendingInterrupt? (csrs : Csrs) : Option UInt64 :=
  let pending := csrs.mip &&& csrs.mie
  if csrs.interruptsEnabled && pending != 0 then
    some (interruptFlag ||| UInt64.ofNat (lowestBit pending 64 0))
  else none

end Csrs

end HartScope
