import HartScope.Proofs.Expr.Grammar
import Mathlib.Data.Nat.Digits.Defs

/-!
What a parse tree means.  Operators act on integers and the result is taken modulo `2 ^ 64`; an
operand word is signed under division and remainder and unsigned everywhere else.  Both operands of
every operator are evaluated, the left one first, and the first error is the result.
-/

namespace HartScope.Expr

/-- The number that a string of digits denotes, if there are digits and it fits a word. -/
def literalValue (base : Nat) (digit? : Char → Option Nat) (text : List Char) : Option UInt64 :=
  (text.mapM digit?).bind fun digits =>
    let value := Nat.ofDigits base digits.reverse
    if text ≠ [] ∧ value < 2 ^ 64 then some (UInt64.ofNat value) else none

def leafValue (scope : Scope) (token : Token) : Except ExprError UInt64 :=
  let text := token.text.toList
  match token.kind with
  | .hex => orElse (literalValue 16 Numeral.hexDigit? (text.drop 2)) (.badNumber token.text)
  | .dec => orElse (literalValue 10 Numeral.digit? text) (.badNumber token.text)
  | .reg => orElse (scope.register (String.ofList (text.drop 1))) (.unknownRegister token.text)
  | .ident => orElse (scope.symbol token.text) (.unknownSymbol token.text)
  | _ => .error .badExpression

def unaryValue (scope : Scope) (operator : TokenKind) (word : UInt64) : Except ExprError UInt64 :=
  match operator with
  | .neg => .ok (UInt64.ofInt (-word.toNat))
  | .deref => scope.memory word
  | _ => .ok word

def flag (condition : Prop) [Decidable condition] : Except ExprError UInt64 :=
  .ok (if condition then 1 else 0)

def signed (word : UInt64) : Int :=
  word.toInt64.toInt

def binaryValue (operator : TokenKind) (left right : UInt64) : Except ExprError UInt64 :=
  let a := left.toNat
  let b := right.toNat
  match operator with
  | .add => .ok (UInt64.ofInt (a + b))
  | .sub => .ok (UInt64.ofInt (a - b))
  | .mul => .ok (UInt64.ofInt (a * b))
  | .div =>
      if b = 0 then .error .divideByZero
      else .ok (UInt64.ofInt ((signed left).tdiv (signed right)))
  | .rem =>
      if b = 0 then .error .divideByZero
      else .ok (UInt64.ofInt ((signed left).tmod (signed right)))
  | .bitAnd => .ok (UInt64.ofNat (a &&& b))
  | .bitOr => .ok (UInt64.ofNat (a ||| b))
  | .bitXor => .ok (UInt64.ofNat (a ^^^ b))
  | .eq => flag (a = b)
  | .ne => flag (a ≠ b)
  | .lt => flag (a < b)
  | .gt => flag (a > b)
  | .le => flag (a ≤ b)
  | .ge => flag (a ≥ b)
  | .logicAnd => flag (a ≠ 0 ∧ b ≠ 0)
  | .logicOr => flag (a ≠ 0 ∨ b ≠ 0)
  | _ => .error .badExpression

def Tree.value (scope : Scope) : Tree → Except ExprError UInt64
  | .leaf token => leafValue scope token
  | .group inner => inner.value scope
  | .unary operator argument => do
      let word ← argument.value scope
      unaryValue scope operator word
  | .binary operator left right => do
      let a ← left.value scope
      let b ← right.value scope
      binaryValue operator a b

theorem foldlM_digits (base : Nat) (digit? : Char → Option Nat) (text : List Char) (high : Nat) :
    text.foldlM (fun acc c => (digit? c).map (acc * base + ·)) high =
      (text.mapM digit?).map fun digits =>
        high * base ^ digits.length + Nat.ofDigits base digits.reverse := by
  induction text generalizing high with
  | nil => simp
  | cons c rest ih =>
      rw [List.foldlM_cons, List.mapM_cons]
      cases digit? c with
      | none => rfl
      | some digit =>
          simp only [Option.map_some, Option.bind_eq_bind, Option.bind_some, ih]
          cases rest.mapM digit? with
          | none => rfl
          | some digits =>
              simp only [Option.map_some, Option.bind_some, Option.pure_def, Option.some.injEq,
                List.length_cons, List.reverse_cons, Nat.ofDigits_append, List.length_reverse,
                Nat.ofDigits_singleton, pow_succ]
              ring

theorem number_eq_literalValue (base : Nat) (digit? : Char → Option Nat) (text : List Char)
    (name : String) :
    number name (if text.isEmpty then none
        else Numeral.below? Numeral.wordLimit (Numeral.fold? base digit? text)) =
      orElse (literalValue base digit? text) (.badNumber name) := by
  simp only [Numeral.fold?, foldlM_digits, literalValue, Nat.zero_mul, Nat.zero_add]
  cases text with
  | nil => rfl
  | cons c rest =>
      cases (c :: rest).mapM digit? with
      | none => rfl
      | some digits =>
          have size : Numeral.wordLimit = 2 ^ 64 := rfl
          rw [size]
          generalize 2 ^ 64 = limit
          by_cases small : Nat.ofDigits base digits.reverse < limit <;>
            simp [number, orElse, Numeral.below?, Option.filter_some, small]

theorem ofInt_toNat (word : UInt64) : UInt64.ofInt word.toNat = word := by
  have bound := word.toNat_lt
  apply UInt64.toNat_inj.mp
  rw [UInt64.ofInt, UInt64.toNat_ofNat']
  omega

theorem ofInt_eq_toUInt64 (n : Int) : UInt64.ofInt n = (Int64.ofInt n).toUInt64 := by
  apply UInt64.toBitVec_inj.mp
  apply BitVec.eq_of_toNat_eq
  change (n % 2 ^ 64).toNat % 2 ^ 64 = (BitVec.ofInt 64 n).toNat
  rw [BitVec.toNat_ofInt]
  omega

theorem ofInt_sub (m n : Int) : UInt64.ofInt (m - n) = UInt64.ofInt m - UInt64.ofInt n := by
  rw [Int.sub_eq_add_neg, UInt64.ofInt_add, UInt64.ofInt_neg, UInt64.sub_eq_add_neg]

theorem div_eq_ofInt_tdiv (a b : UInt64) :
    (a.toInt64 / b.toInt64).toUInt64 = UInt64.ofInt ((signed a).tdiv (signed b)) := by
  rw [ofInt_eq_toUInt64]
  congr 1
  exact ((Int64.ofInt_eq_iff_bmod_eq_toInt _ _).mpr (Int64.toInt_div _ _).symm).symm

theorem rem_eq_ofInt_tmod (a b : UInt64) :
    (a.toInt64 % b.toInt64).toUInt64 = UInt64.ofInt ((signed a).tmod (signed b)) := by
  rw [ofInt_eq_toUInt64, signed, signed, ← Int64.toInt_mod, Int64.ofInt_toInt]

theorem operand_eq_leafValue (scope : Scope) (token : Token) :
    operand scope token = leafValue scope token := by
  unfold operand leafValue
  cases token.kind with
  | hex => exact number_eq_literalValue 16 _ _ _
  | dec => exact number_eq_literalValue 10 _ _ _
  | _ => rfl

theorem unary_eq_unaryValue (scope : Scope) (operator : TokenKind) (word : UInt64) :
    unary scope operator word = unaryValue scope operator word := by
  cases operator with
  | neg =>
      simp only [unary, unaryValue, UInt64.ofInt_neg, ofInt_toNat, UInt64.zero_sub]
  | _ => rfl

theorem binary_eq_binaryValue (operator : TokenKind) (a b : UInt64) :
    binary operator a b = binaryValue operator a b := by
  have zero (word : UInt64) : word = 0 ↔ word.toNat = 0 := by
    rw [← UInt64.toNat_inj]
    rfl
  cases operator with
  | add | mul => simp only [binary, binaryValue, UInt64.ofInt_add, UInt64.ofInt_mul, ofInt_toNat]
  | sub => simp only [binary, binaryValue, ofInt_sub, ofInt_toNat]
  | div => simp only [binary, binaryValue, zero, div_eq_ofInt_tdiv]
  | rem => simp only [binary, binaryValue, zero, rem_eq_ofInt_tmod]
  | bitAnd | bitOr | bitXor =>
      simp only [binary, binaryValue, ← UInt64.toNat_and, ← UInt64.toNat_or, ← UInt64.toNat_xor,
        UInt64.ofNat_toNat]
  | eq | ne | lt | gt | le | ge | logicAnd | logicOr =>
      simp [binary, binaryValue, flag, truth, zero, UInt64.lt_iff_toNat_lt, UInt64.le_iff_toNat_le,
        ← UInt64.toNat_inj]
  | _ => rfl

end HartScope.Expr
