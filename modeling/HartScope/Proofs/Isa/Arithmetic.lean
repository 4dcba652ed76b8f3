import HartScope.Isa.Alu
import HartScope.Proofs.Isa.TwosComplement

/-!
What the operations compute.  `meaning` defines every operation over the integers, for words of any
length.  The hart's operations agree with it for words of 64 bits, and in the word form for words of
32 bits, whose result is sign-extended.
-/

namespace HartScope

namespace AluOp

/-- The operation on words of `length` bits, over the integers.  An operand is the number that its
bits spell, or that number in two's complement where the operation is signed.  Of the value, the low
`length` bits are the result. -/
def meaning (length : Nat) (op : AluOp) (a b : Nat) : Int :=
  let x := (a : Int).bmod (2 ^ length)
  let y := (b : Int).bmod (2 ^ length)
  match op with
  | add => a + b
  | sub => a - b
  | sll => a * 2 ^ (b % length)
  | slt => if x < y then 1 else 0
  | sltu => if a < b then 1 else 0
  | xor => (a ^^^ b : Nat)
  | srl => a / 2 ^ (b % length)
  | sra => x / 2 ^ (b % length)
  | or => (a ||| b : Nat)
  | and => (a &&& b : Nat)
  | mul => a * b
  | mulh => x * y / 2 ^ length
  | mulhsu => x * b / 2 ^ length
  | mulhu => a * b / 2 ^ length
  | div => if b = 0 then -1 else x.tdiv y
  | divu => if b = 0 then -1 else a / b
  | rem => if b = 0 then a else x.tmod y
  | remu => if b = 0 then a else a % b

/-- Quotient and remainder of signed words. -/
structure SignedDivision (length : Nat) (x y quotient remainder : Int) : Prop where
  byZero : y = 0 → quotient = -1 ∧ remainder = x
  overflow : x = -2 ^ (length - 1) → y = -1 → quotient = x ∧ remainder = 0
  truncated : y ≠ 0 → ¬(x = -2 ^ (length - 1) ∧ y = -1) →
    x = quotient * y + remainder ∧ remainder.natAbs < y.natAbs ∧
      (remainder ≠ 0 → remainder.sign = x.sign)

/-- Quotient and remainder of unsigned words. -/
structure UnsignedDivision (length a b quotient remainder : Nat) : Prop where
  byZero : b = 0 → quotient = 2 ^ length - 1 ∧ remainder = a
  floored : b ≠ 0 → a = quotient * b + remainder ∧ remainder < b

/-- The product as a signed number of 128 bits, unless it overflows. -/
def signedProduct? (x y : Int) : Option Int :=
  if -2 ^ 127 ≤ x * y ∧ x * y < 2 ^ 127 then some (x * y) else none

/-- The product as an unsigned number of 128 bits, unless it overflows. -/
def unsignedProduct? (x y : Nat) : Option Nat :=
  if x * y < 2 ^ 128 then some (x * y) else none

/-- A division or a remainder, unless the divisor is zero. -/
def divide? {α : Type} [OfNat α 0] [DecidableEq α] (operate : α → α → α) (x y : α) : Option α :=
  if y = 0 then none else some (operate x y)

/-- Execution by steps that can fail: the products of 128 bits and the divisions. -/
def executeChecked? (op : AluOp) (narrow : Bool) (a b : UInt64) : Option UInt64 :=
  let x := a.toUInt32
  let y := b.toUInt32
  let allOnes : UInt64 := 0xFFFFFFFFFFFFFFFF
  let high (product : Int) : UInt64 := UInt64.ofInt (product / UInt64.size)
  match op, narrow with
  | mulh, _ => (signedProduct? a.toInt64.toInt b.toInt64.toInt).map high
  | mulhsu, _ => (signedProduct? a.toInt64.toInt b.toNat).map high
  | mulhu, _ => (unsignedProduct? a.toNat b.toNat).map fun product => high product
  | div, false =>
      if b = 0 then some allOnes
      else (divide? (· / ·) a.toInt64 b.toInt64).map Int64.toUInt64
  | div, true =>
      if y = 0 then some allOnes
      else (divide? (· / ·) x.toInt32 y.toInt32).map (signExtendWord ·.toUInt32)
  | divu, false => if b = 0 then some allOnes else divide? (· / ·) a b
  | divu, true => if y = 0 then some allOnes else (divide? (· / ·) x y).map signExtendWord
  | rem, false =>
      if b = 0 then some a else (divide? (· % ·) a.toInt64 b.toInt64).map Int64.toUInt64
  | rem, true =>
      if y = 0 then some (signExtendWord x)
      else (divide? (· % ·) x.toInt32 y.toInt32).map (signExtendWord ·.toUInt32)
  | remu, false => if b = 0 then some a else divide? (· % ·) a b
  | remu, true =>
      if y = 0 then some (signExtendWord x) else (divide? (· % ·) x y).map signExtendWord
  | _, _ => some (op.execute narrow a b)

/-- Some word in register or immediate form selects the operation. -/
def Selectable (op : AluOp) (narrow : Bool) : Prop :=
  (∃ funct3 funct7, ofRegisterForm? funct3 funct7 narrow = some op) ∨
    ∃ funct3 imm, ofImmediateForm? funct3 imm narrow = some op

def wordForms : List AluOp :=
  [add, sub, sll, srl, sra, mul, div, divu, rem, remu]

theorem selectable_iff (op : AluOp) (narrow : Bool) :
    Selectable op narrow ↔ narrow = true → op ∈ wordForms := by
  constructor
  · rintro (⟨code, selector, found⟩ | ⟨code, imm, found⟩) rfl
    · unfold ofRegisterForm? ofMultiply? ofBase? at found
      split at found <;> split at found <;> simp_all [wordForms]
    · unfold ofImmediateForm? at found
      dsimp only at found
      grind [wordForms]
  · intro member
    have table : ∀ op : AluOp, (narrow = true → op ∈ wordForms) →
        ∃ code < 8, ∃ selector ∈ [0x00, 0x01, 0x20],
          ofRegisterForm? code selector narrow = some op := by
      intro op
      cases narrow <;> cases op <;> decide
    obtain ⟨code, _, selector, _, found⟩ := table op member
    exact .inl ⟨code, selector, found⟩

/-- The operation on bit vectors, from which both forms derive. -/
def onBits {length : Nat} (op : AluOp) (x y : BitVec length) : BitVec length :=
  match op with
  | add => x + y
  | sub => x - y
  | sll => x <<< (y.toNat % length)
  | slt => if x.slt y then 1 else 0
  | sltu => if x < y then 1 else 0
  | xor => x ^^^ y
  | srl => x >>> (y.toNat % length)
  | sra => x.sshiftRight (y.toNat % length)
  | or => x ||| y
  | and => x &&& y
  | mul => x * y
  | mulh => BitVec.ofInt length (x.toInt * y.toInt / 2 ^ length)
  | mulhsu => BitVec.ofInt length (x.toInt * y.toNat / 2 ^ length)
  | mulhu => BitVec.ofInt length (x.toNat * y.toNat / 2 ^ length)
  | div => if y = 0 then BitVec.allOnes length else x.sdiv y
  | divu => if y = 0 then BitVec.allOnes length else x / y
  | rem => if y = 0 then x else x.srem y
  | remu => if y = 0 then x else x % y

section Bits

variable {length : Nat} (x y : BitVec length)

theorem toNat_eq_zero_iff : y.toNat = 0 ↔ y = 0 := by
  rw [← BitVec.toNat_inj]
  rfl

theorem ofInt_toNat (value : BitVec length) : BitVec.ofInt length value.toNat = value := by
  rw [BitVec.ofInt_natCast, BitVec.ofNat_toNat, BitVec.setWidth_eq]

theorem ofInt_neg_one : BitVec.ofInt length (-1) = BitVec.allOnes length := by
  rw [BitVec.ofInt_neg, ← BitVec.neg_one_eq_allOnes]
  rfl

theorem setWidth_signExtend {wide : Nat} {x : BitVec length} (fits : length ≤ wide) :
    (x.signExtend wide).setWidth length = x := by
  ext i inside
  rw [BitVec.getElem_setWidth, BitVec.getLsbD_signExtend, if_pos inside,
    BitVec.getLsbD_eq_getElem inside]
  simp [Nat.lt_of_lt_of_le inside fits]

theorem onBits_eq_ofInt (op : AluOp) :
    op.onBits x y = BitVec.ofInt length (op.meaning length x.toNat y.toNat) := by
  cases op with
  | add | mul => simp only [onBits, meaning, BitVec.ofInt_add, BitVec.ofInt_mul, ofInt_toNat]
  | sub =>
      simp only [onBits, meaning, Int.sub_eq_add_neg, BitVec.ofInt_add, BitVec.ofInt_neg,
        ofInt_toNat, BitVec.sub_eq_add_neg]
  | xor | or | and =>
      simp only [onBits, meaning, ← BitVec.toNat_xor, ← BitVec.toNat_or, ← BitVec.toNat_and,
        ofInt_toNat]
  | sll =>
      apply BitVec.eq_of_toNat_eq
      simp only [onBits, meaning, BitVec.toNat_shiftLeft, Nat.shiftLeft_eq]
      norm_cast
  | srl =>
      have value : (x.toNat / 2 ^ (y.toNat % length) : Int) =
          (x >>> (y.toNat % length)).toNat := by
        rw [BitVec.toNat_ushiftRight, Nat.shiftRight_eq_div_pow]
        norm_cast
      simp only [onBits, meaning, value, ofInt_toNat]
  | sra =>
      have value : x.toInt / 2 ^ (y.toNat % length) =
          (x.sshiftRight (y.toNat % length)).toInt := by
        rw [BitVec.toInt_sshiftRight, Int.shiftRight_eq_div_pow]
        norm_cast
      simp only [onBits, meaning, ← BitVec.toInt_eq_toNat_bmod, value, BitVec.ofInt_toInt]
  | slt =>
      simp only [onBits, meaning, ← BitVec.toInt_eq_toNat_bmod, BitVec.slt, decide_eq_true_eq]
      split <;> rfl
  | sltu =>
      simp only [onBits, meaning, BitVec.lt_def]
      split <;> rfl
  | mulh | mulhsu | mulhu => simp only [onBits, meaning, ← BitVec.toInt_eq_toNat_bmod]
  | div =>
      simp only [onBits, meaning, ← BitVec.toInt_eq_toNat_bmod, toNat_eq_zero_iff]
      split
      · rw [ofInt_neg_one]
      · apply BitVec.eq_of_toInt_eq
        rw [BitVec.toInt_sdiv, BitVec.toInt_ofInt]
  | rem =>
      simp only [onBits, meaning, ← BitVec.toInt_eq_toNat_bmod, toNat_eq_zero_iff]
      split
      · rw [ofInt_toNat]
      · rw [← BitVec.toInt_srem, BitVec.ofInt_toInt]
  | divu =>
      simp only [onBits, meaning, toNat_eq_zero_iff]
      split
      · rw [ofInt_neg_one]
      · norm_cast
        rw [← BitVec.toNat_udiv, ofInt_toNat]
  | remu =>
      simp only [onBits, meaning, toNat_eq_zero_iff]
      split
      · rw [ofInt_toNat]
      · norm_cast
        rw [← BitVec.toNat_umod, ofInt_toNat]

theorem onBits_signedDivision (positive : 0 < length) :
    SignedDivision length x.toInt y.toInt (div.onBits x y).toInt (rem.onBits x y).toInt := by
  have zero : y.toInt = 0 ↔ y = 0 := by
    rw [← BitVec.toInt_inj]
    exact iff_of_eq (congrArg (y.toInt = ·) BitVec.toInt_zero.symm)
  refine ⟨?_, ?_, ?_⟩
  · intro absent
    have none := zero.mp absent
    simp only [onBits, if_pos none, BitVec.toInt_allOnes, if_pos positive, and_self]
  · intro least minus
    have some : y ≠ 0 := zero.not.mp (by omega)
    have double : 2 ^ length = 2 * (2 : Int) ^ (length - 1) := by
      rw [← Int.pow_succ', Nat.sub_add_cancel positive]
    -- The quotient is the negation of the least number, which wraps round to it.
    have wrapped : ((2 : Int) ^ (length - 1)).bmod (2 ^ length) = -2 ^ (length - 1) :=
      Int.bmod_eq_neg (Int.pow_nonneg (by decide)) (by exact_mod_cast double)
    simp only [onBits, if_neg some, BitVec.toInt_sdiv, BitVec.toInt_srem, least, minus,
      Int.tdiv_neg, Int.tdiv_one, Int.neg_neg, Int.tmod_neg, Int.tmod_one, wrapped, and_self]
  · intro nonzero regular
    have some : y ≠ 0 := zero.not.mp nonzero
    have inside : x ≠ BitVec.intMin length ∨ y ≠ -BitVec.ofNat length 1 := by
      rw [← not_and_or]
      rintro ⟨rfl, rfl⟩
      apply regular
      rw [BitVec.toInt_intMin_of_pos positive, BitVec.neg_one_eq_allOnes, BitVec.toInt_allOnes,
        if_pos positive]
      exact ⟨rfl, rfl⟩
    simp only [onBits, if_neg some, BitVec.toInt_sdiv_of_ne_or_ne _ _ inside, BitVec.toInt_srem]
    refine ⟨(Int.tdiv_mul_add_tmod _ _).symm, ?_, ?_⟩
    · rw [Int.natAbs_tmod]
      exact Nat.mod_lt _ (by omega)
    · intro left
      rw [Int.sign_tmod, if_neg]
      intro divides
      exact left (Int.tmod_eq_zero_of_dvd divides)

theorem onBits_unsignedDivision :
    UnsignedDivision length x.toNat y.toNat (divu.onBits x y).toNat (remu.onBits x y).toNat := by
  refine ⟨?_, ?_⟩
  · intro absent
    have none := (toNat_eq_zero_iff y).mp absent
    simp only [onBits, if_pos none, BitVec.toNat_allOnes, and_self]
  · intro nonzero
    have some : y ≠ 0 := (toNat_eq_zero_iff y).not.mp nonzero
    simp only [onBits, if_neg some, BitVec.toNat_udiv, BitVec.toNat_umod]
    exact ⟨(Nat.div_add_mod' _ _).symm, Nat.mod_lt _ (by omega)⟩

end Bits

section Amounts

variable {length bits : Nat} (y : BitVec length)

/-- The low bits of a shift amount. -/
theorem toNat_mask (fits : bits < length) :
    (y &&& BitVec.ofNat length (2 ^ bits - 1)).toNat = y.toNat % 2 ^ bits := by
  have small : 2 ^ bits < 2 ^ length := Nat.pow_lt_pow_right (by decide) fits
  rw [BitVec.toNat_and, BitVec.toNat_ofNat, Nat.mod_eq_of_lt (Nat.sub_lt_of_lt small),
    Nat.and_two_pow_sub_one_eq_mod]

theorem toNat_mask_umod (fits : bits < length) :
    ((y &&& BitVec.ofNat length (2 ^ bits - 1)) % BitVec.ofNat length (2 ^ bits)).toNat =
      y.toNat % 2 ^ bits := by
  have small : 2 ^ bits < 2 ^ length := Nat.pow_lt_pow_right (by decide) fits
  rw [BitVec.toNat_umod, toNat_mask y fits, BitVec.toNat_ofNat, Nat.mod_eq_of_lt small, Nat.mod_mod]

theorem toNat_mask_smod (fits : bits + 1 < length) :
    ((y &&& BitVec.ofNat length (2 ^ bits - 1)).smod (BitVec.ofNat length (2 ^ bits))).toNat =
      y.toNat % 2 ^ bits := by
  have small : 2 ^ (bits + 1) < 2 ^ length := Nat.pow_lt_pow_right (by decide) fits
  rw [Nat.pow_succ] at small
  have masked := toNat_mask y (Nat.lt_of_succ_lt fits)
  have below : y.toNat % 2 ^ bits < 2 ^ bits := Nat.mod_lt _ (Nat.two_pow_pos bits)
  have amount : (y &&& BitVec.ofNat length (2 ^ bits - 1)).msb = false := by
    rw [BitVec.msb_eq_false_iff_two_mul_lt, masked]
    omega
  have modulus : (BitVec.ofNat length (2 ^ bits)).msb = false := by
    rw [BitVec.msb_eq_false_iff_two_mul_lt, BitVec.toNat_ofNat, Nat.mod_eq_of_lt (by omega)]
    omega
  rw [BitVec.smod_eq, amount, modulus]
  exact toNat_mask_umod y (Nat.lt_of_succ_lt fits)

end Amounts

/-- The bits of a word on which an operation acts. -/
def wordLength (narrow : Bool) : Nat :=
  if narrow then 32 else 64

theorem executeDouble_toBitVec (op : AluOp) (a b : UInt64) :
    (op.executeDouble a b).toBitVec = op.onBits a.toBitVec b.toBitVec := by
  have zero : b = 0 ↔ b.toBitVec = 0 := UInt64.toBitVec_inj.symm
  cases op with
  | add | sub | mul | xor | or | and => rfl
  | slt =>
      simp only [executeDouble, onBits, ofBool, decide_eq_true_eq, Int64.lt_iff_toBitVec_slt]
      split <;> simp_all
  | sltu =>
      simp only [executeDouble, onBits, ofBool, decide_eq_true_eq, UInt64.lt_iff_toBitVec_lt]
      split <;> rfl
  | sll | srl =>
      have amount : ((b &&& 0x3F).toBitVec % 64#64).toNat = b.toBitVec.toNat % 64 :=
        @toNat_mask_umod 64 6 b.toBitVec (by decide)
      simp only [executeDouble, onBits, UInt64.toBitVec_shiftLeft, UInt64.toBitVec_shiftRight,
        BitVec.shiftLeft_eq', BitVec.ushiftRight_eq']
      rw [← amount]
      rfl
  | sra =>
      have amount : ((b &&& 0x3F).toBitVec.smod 64#64).toNat = b.toBitVec.toNat % 64 :=
        @toNat_mask_smod 64 6 b.toBitVec (by decide)
      simp only [onBits]
      rw [← amount]
      rfl
  | mulh | mulhsu | mulhu => exact toBitVec_ofInt _
  | div | divu | rem | remu =>
      simp only [executeDouble, onBits, zero]
      split <;> rfl

theorem executeWord_toBitVec {op : AluOp} (member : op ∈ wordForms) (a b : UInt64) :
    (op.executeWord a b).toBitVec =
      (op.onBits (a.toBitVec.setWidth 32) (b.toBitVec.setWidth 32)).signExtend 64 := by
  have zero : b.toUInt32 = 0 ↔ b.toBitVec.setWidth 32 = 0 := UInt32.toBitVec_inj.symm
  cases op with
  | add | sub | mul => rfl
  | sll | srl =>
      have amount : ((b.toUInt32 &&& 0x1F).toBitVec % 32#32).toNat =
          (b.toBitVec.setWidth 32).toNat % 32 :=
        @toNat_mask_umod 32 5 (b.toBitVec.setWidth 32) (by decide)
      simp only [onBits]
      rw [← amount]
      rfl
  | sra =>
      have amount : ((b.toUInt32 &&& 0x1F).toBitVec.smod 32#32).toNat =
          (b.toBitVec.setWidth 32).toNat % 32 :=
        @toNat_mask_smod 32 5 (b.toBitVec.setWidth 32) (by decide)
      simp only [onBits]
      rw [← amount]
      rfl
  | div | divu | rem | remu =>
      simp only [executeWord, onBits, zero]
      split <;> rfl
  | slt | sltu | xor | or | and | mulh | mulhsu | mulhu => simp [wordForms] at member

theorem execute_toBitVec {op : AluOp} {narrow : Bool} (selected : Selectable op narrow)
    (a b : UInt64) :
    (op.execute narrow a b).toBitVec =
      (op.onBits (a.toBitVec.setWidth (wordLength narrow))
        (b.toBitVec.setWidth (wordLength narrow))).signExtend 64 := by
  cases narrow with
  | false =>
      have whole : wordLength false = 64 := rfl
      rw [whole, BitVec.setWidth_eq, BitVec.setWidth_eq, BitVec.signExtend_eq]
      exact executeDouble_toBitVec op a b
  | true => exact executeWord_toBitVec ((selectable_iff op true).mp selected rfl) a b

theorem execute_eq_ofInt {op : AluOp} {narrow : Bool} (selected : Selectable op narrow)
    (a b : UInt64) :
    let modulus := 2 ^ wordLength narrow
    op.execute narrow a b =
      UInt64.ofInt ((op.meaning (wordLength narrow) (a.toNat % modulus) (b.toNat % modulus)).bmod
        modulus) := by
  intro modulus
  apply UInt64.toBitVec_inj.mp
  rw [execute_toBitVec selected, onBits_eq_ofInt, toBitVec_ofInt, BitVec.signExtend,
    BitVec.toInt_ofInt, BitVec.toNat_setWidth, BitVec.toNat_setWidth]
  rfl

theorem execute_toInt {op : AluOp} {narrow : Bool} (selected : Selectable op narrow)
    (a b : UInt64) :
    (op.execute narrow a b).toInt64.toInt =
      (op.onBits (a.toBitVec.setWidth (wordLength narrow))
        (b.toBitVec.setWidth (wordLength narrow))).toInt := by
  have fits : wordLength narrow ≤ 64 := by cases narrow <;> decide
  rw [← BitVec.toInt_signExtend_of_le fits, ← execute_toBitVec selected]
  rfl

theorem execute_toNat {op : AluOp} {narrow : Bool} (selected : Selectable op narrow)
    (a b : UInt64) :
    (op.execute narrow a b).toNat % 2 ^ wordLength narrow =
      (op.onBits (a.toBitVec.setWidth (wordLength narrow))
        (b.toBitVec.setWidth (wordLength narrow))).toNat := by
  have fits : wordLength narrow ≤ 64 := by cases narrow <;> decide
  rw [← UInt64.toNat_toBitVec, ← BitVec.toNat_setWidth, execute_toBitVec selected,
    setWidth_signExtend fits]

theorem signedProduct?_eq {x y : Int} (left : x.natAbs ≤ 2 ^ 63) (right : y.natAbs < 2 ^ 64) :
    signedProduct? x y = some (x * y) := by
  have size : (x * y).natAbs ≤ 2 ^ 63 * (2 ^ 64 - 1) := by
    rw [Int.natAbs_mul]
    exact Nat.mul_le_mul left (by omega)
  apply if_pos
  omega

theorem unsignedProduct?_eq {x y : Nat} (left : x < 2 ^ 64) (right : y < 2 ^ 64) :
    unsignedProduct? x y = some (x * y) := by
  have size : x * y ≤ (2 ^ 64 - 1) * (2 ^ 64 - 1) :=
    Nat.mul_le_mul (by omega) (by omega)
  apply if_pos
  omega

theorem natAbs_toInt64_le (a : UInt64) : a.toInt64.toInt.natAbs ≤ 2 ^ 63 := by
  have lower := a.toInt64.le_toInt
  have upper := a.toInt64.toInt_lt
  omega

theorem executeChecked?_eq (op : AluOp) (narrow : Bool) (a b : UInt64) :
    op.executeChecked? narrow a b = some (op.execute narrow a b) := by
  have left := natAbs_toInt64_le a
  have right := natAbs_toInt64_le b
  have size := b.toNat_lt
  have zero : b.toInt64 = 0 ↔ b = 0 :=
    ⟨congrArg Int64.toUInt64, congrArg UInt64.toInt64⟩
  have zeroWord : b.toUInt32.toInt32 = 0 ↔ b.toUInt32 = 0 :=
    ⟨congrArg Int32.toUInt32, congrArg UInt32.toInt32⟩
  cases op with
  | mulh =>
      have product : signedProduct? a.toInt64.toInt b.toInt64.toInt = _ :=
        signedProduct?_eq left (by omega)
      simp only [executeChecked?, product, Option.map_some]
      cases narrow <;> rfl
  | mulhsu =>
      have product : signedProduct? a.toInt64.toInt b.toNat = _ :=
        signedProduct?_eq left (by omega)
      simp only [executeChecked?, product, Option.map_some]
      cases narrow <;> rfl
  | mulhu =>
      simp only [executeChecked?, unsignedProduct?_eq a.toNat_lt size]
      cases narrow <;> rfl
  -- The guard before a division is the condition under which it has a result.
  | div | divu | rem | remu =>
      cases narrow <;>
        simp only [executeChecked?, execute, executeDouble, executeWord, divide?, zero, zeroWord,
          if_true, if_false, Bool.false_eq_true] <;>
        split <;> rfl
  | add | sub | sll | slt | sltu | xor | srl | sra | or | and | mul => rfl

/-- An operation that a word can select computes its value over the integers, the word form on the
low halves.  No product overflows and no division has a zero divisor on the way, and quotient and
remainder of the same operands belong together. -/
theorem execute_computes_meaning {op : AluOp} {narrow : Bool} (selected : Selectable op narrow)
    (a b : UInt64) :
    let length := wordLength narrow
    let x := a.toNat % 2 ^ length
    let y := b.toNat % 2 ^ length
    op.execute narrow a b = UInt64.ofInt ((op.meaning length x y).bmod (2 ^ length)) ∧
      op.executeChecked? narrow a b = some (op.execute narrow a b) ∧
      SignedDivision length ((x : Int).bmod (2 ^ length)) ((y : Int).bmod (2 ^ length))
        (div.execute narrow a b).toInt64.toInt (rem.execute narrow a b).toInt64.toInt ∧
      UnsignedDivision length x y ((divu.execute narrow a b).toNat % 2 ^ length)
        ((remu.execute narrow a b).toNat % 2 ^ length) := by
  intro length x y
  have division {other : AluOp} (member : other ∈ wordForms) : Selectable other narrow :=
    (selectable_iff other narrow).mpr fun _ => member
  have positive : 0 < length := by cases narrow <;> decide
  have low : x = (a.toBitVec.setWidth length).toNat := (BitVec.toNat_setWidth ..).symm
  have high : y = (b.toBitVec.setWidth length).toNat := (BitVec.toNat_setWidth ..).symm
  refine ⟨execute_eq_ofInt selected a b, executeChecked?_eq op narrow a b, ?_, ?_⟩
  · rw [execute_toInt (division (by decide)), execute_toInt (division (by decide)), low, high,
      ← BitVec.toInt_eq_toNat_bmod, ← BitVec.toInt_eq_toNat_bmod]
    exact onBits_signedDivision _ _ positive
  · rw [execute_toNat (division (by decide)), execute_toNat (division (by decide)), low, high]
    exact onBits_unsignedDivision _ _

/-- The least 32-bit number divided by minus one, under upper halves that play no part. -/
theorem divw_overflow_ignores_upper_halves :
    Selectable div true ∧
      div.execute true 0xDEADBEEF80000000 0x00000001FFFFFFFF = 0xFFFFFFFF80000000 ∧
      (rem.execute true 0xDEADBEEF80000000 0x00000001FFFFFFFF).toInt64.toInt = 0 := by
  have selected : Selectable div true := (selectable_iff div true).mpr (by decide)
  obtain ⟨value, _, division, _⟩ :=
    execute_computes_meaning selected 0xDEADBEEF80000000 0x00000001FFFFFFFF
  exact ⟨selected, value.trans (by decide), (division.overflow (by decide) (by decide)).2⟩

end AluOp

end HartScope
