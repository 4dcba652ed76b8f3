import HartScope.Access

/-!
Why one instruction could not retire. Every fault carries the address of its instruction.
-/

namespace HartScope

inductive Fault where
  | invalidInstruction (pc : UInt64) (word : UInt32)
  | memory (pc : UInt64) (cause : OutOfBound)
  /-- A trap with no vector installed, or with a selector below minus one. -/
  | unsupportedTrap (pc selector vector : UInt64)
deriving DecidableEq, Repr

namespace Fault

def pc : Fault → UInt64
  | invalidInstruction pc _ => pc
  | memory pc _ => pc
  | unsupportedTrap pc _ _ => pc

def message : Fault → String
  | invalidInstruction pc word =>
      s!"invalid instruction {Numeral.hexPadded 8 word.toNat} at pc = {Numeral.hex pc.toNat}"
  | memory pc cause => s!"memory fault at pc = {Numeral.hex pc.toNat}: {cause.message}"
  | unsupportedTrap pc selector vector =>
      s!"unsupported trap at pc = {Numeral.hex pc.toNat} (a7 = {Numeral.hex selector.toNat}, " ++
        s!"mtvec = {Numeral.hex vector.toNat})"

end Fault

end HartScope
