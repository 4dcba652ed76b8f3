import HartScope.Text.Numeral

/-!
One disagreement between the hart and its reference.
-/

namespace HartScope

structure Mismatch where
  name : String
  reference : UInt64
  actual : UInt64
deriving DecidableEq, Repr

def Mismatch.text (mismatch : Mismatch) : String :=
  s!"{mismatch.name} is different: ref = {Numeral.hexPadded 16 mismatch.reference.toNat}, " ++
    s!"dut = {Numeral.hexPadded 16 mismatch.actual.toNat}"

end HartScope
