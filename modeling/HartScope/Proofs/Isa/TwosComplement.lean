import Mathlib.Data.BitVec

/-!
Words as integers in two's complement.
-/

namespace HartScope

theorem toBitVec_ofInt (value : Int) : (UInt64.ofInt value).toBitVec = BitVec.ofInt 64 value := by
  apply BitVec.eq_of_toNat_eq
  change (value % 2 ^ 64).toNat % 2 ^ 64 = (BitVec.ofInt 64 value).toNat
  rw [BitVec.toNat_ofInt]
  omega

/-- A number in the range of a signed word is read back from the word that it makes. -/
theorem toInt_ofInt {value : Int} (lower : -2 ^ 63 ≤ value) (upper : value < 2 ^ 63) :
    (UInt64.ofInt value).toInt64.toInt = value := by
  change (UInt64.ofInt value).toBitVec.toInt = value
  rw [toBitVec_ofInt]
  exact BitVec.toInt_ofInt_eq_self (by decide) lower upper

end HartScope
