import HartScope.Isa.Fields
import HartScope.Symbols

/-!
Call trace.  A control transfer is a call, a return or a tail call.  A tail call never sees its own
return, so its site is kept with the depth at which it was made; when a return brings the depth back
to that level, the missing return of the function that made the tail call follows at once.
-/

namespace HartScope

inductive Transfer where
  | call
  | tailCall
  | ret
deriving DecidableEq, Repr

/-- A jump that links into `ra` is a call.  One that links nowhere is a return if it goes to the
address in `ra`, and a tail call if it goes through another register or to the start of a
function. -/
def Transfer.classify? (word : UInt32) (target : UInt64) (symbols : SymbolTable) :
    Option Transfer :=
  let fields := Fields.ofWord word
  match Opcode.ofBits? fields.opcode with
  | some .jal =>
      if fields.rd = Reg.ra then some .call
      else if fields.rd = Reg.zero ∧ symbols.isFunctionStart target then some .tailCall
      else none
  | some .jalr =>
      if fields.rd = Reg.ra then some .call
      else if fields.rd = Reg.zero ∧ fields.rs1 = Reg.ra ∧ fields.imm = 0 then some .ret
      else if fields.rd = Reg.zero ∧ fields.rs1 ≠ Reg.ra then some .tailCall
      else none
  | _ => none

structure TailSite where
  pc : UInt64
  /-- Call depth at the tail call. -/
  depth : Nat
deriving DecidableEq, Repr

structure CallTracer where
  depth : Nat := 0
  /-- Tail calls that still wait for their return, most recent first. -/
  pending : List TailSite := []
deriving DecidableEq, Repr

namespace CallTracer

def indent (depth : Nat) : String :=
  String.ofList (List.replicate depth ' ')

def callLine (symbols : SymbolTable) (depth : Nat) (pc target : UInt64) : String :=
  s!"{Numeral.hexPadded 8 pc.toNat}:{indent depth} call " ++
    s!"[{(symbols.lookup target).name}@{Numeral.hexPadded 8 target.toNat}]"

def returnLine (symbols : SymbolTable) (depth : Nat) (pc : UInt64) : String :=
  s!"{Numeral.hexPadded 8 pc.toNat}:{indent depth} ret  [{(symbols.lookup pc).name}]"

def call (symbols : SymbolTable) (tracer : CallTracer) (pc target : UInt64) (tail : Bool) :
    String × CallTracer :=
  let pending := if tail then ⟨pc, tracer.depth⟩ :: tracer.pending else tracer.pending
  (callLine symbols tracer.depth pc target, { depth := tracer.depth + 1, pending := pending })

/-- Returns from `depth` at `pc`, and on from each tail call that this completes. -/
def returns (symbols : SymbolTable) : (depth : Nat) → (pc : UInt64) → (pending : List TailSite) →
    List String × CallTracer
  | depth, pc, [] =>
      ([returnLine symbols (depth - 1) pc], { depth := depth - 1, pending := [] })
  | depth, pc, site :: rest =>
      let line := returnLine symbols (depth - 1) pc
      if site.depth = depth - 1 then
        let (lines, tracer) := returns symbols (depth - 1) site.pc rest
        (line :: lines, tracer)
      else ([line], { depth := depth - 1, pending := site :: rest })

def ret (symbols : SymbolTable) (tracer : CallTracer) (pc : UInt64) : List String × CallTracer :=
  returns symbols tracer.depth pc tracer.pending

def record (symbols : SymbolTable) (tracer : CallTracer) (pc target : UInt64) :
    Transfer → List String × CallTracer
  | .call =>
      let (line, tracer) := call symbols tracer pc target false
      ([line], tracer)
  | .tailCall =>
      let (line, tracer) := call symbols tracer pc target true
      ([line], tracer)
  | .ret => ret symbols tracer pc

/-- Records a retired word and gives the lines that it causes. -/
def step (symbols : SymbolTable) (tracer : CallTracer) (pc : UInt64) (word : UInt32)
    (target : UInt64) : List String × CallTracer :=
  match Transfer.classify? word target symbols with
  | some transfer => record symbols tracer pc target transfer
  | none => ([], tracer)

end CallTracer

end HartScope
