import HartScope.Expr.Token

/-!
Evaluation of expressions over 64-bit words.  A token range has the value of its only operand, of
its contents when one pair of parentheses wraps it, or of its loosest operator outside parentheses
applied to the ranges on both sides.  Both sides are evaluated, left before right.
-/

namespace HartScope

/-- What names and addresses in an expression mean. -/
structure Scope where
  register : String → Option UInt64
  memory : UInt64 → Except ExprError UInt64
  symbol : String → Option UInt64

namespace Expr

/-- Depth of open parentheses behind `tokens`, if none closes below zero. -/
def depthAfter? : (depth : Nat) → (tokens : List Token) → Option Nat
  | depth, [] => some depth
  | depth, token :: rest =>
      match token.kind, depth with
      | .lParen, _ => depthAfter? (depth + 1) rest
      | .rParen, 0 => none
      | .rParen, depth + 1 => depthAfter? depth rest
      | _, _ => depthAfter? depth rest

/-- No parenthesis closes that was not opened, and none stays open. -/
def Balanced (tokens : List Token) : Prop :=
  depthAfter? 0 tokens = some 0

instance (tokens : List Token) : Decidable (Balanced tokens) :=
  inferInstanceAs (Decidable (_ = _))

/-- Position of the first closing parenthesis that brings the depth to zero. -/
def closing? : (depth position : Nat) → List Token → Option Nat
  | _, _, [] => none
  | depth, position, token :: rest =>
      match token.kind with
      | .lParen => closing? (depth + 1) (position + 1) rest
      | .rParen =>
          if depth - 1 = 0 then some position else closing? (depth - 1) (position + 1) rest
      | _ => closing? depth (position + 1) rest

/-- One pair of parentheses wraps the whole range. -/
def wrapped (tokens : List Token) : Bool :=
  2 ≤ tokens.length &&
    tokens.head?.any (·.kind == .lParen) &&
    tokens.getLast?.any (·.kind == .rParen) &&
    closing? 0 0 tokens == some (tokens.length - 1)

/-- The operator to split at, among those seen so far: of lowest rank, the last one if it is binary
and the first one if it is unary. -/
structure Pick where
  position : Nat
  rank : Nat
deriving DecidableEq, Repr

def Pick.prefer (best : Option Pick) (position rank : Nat) (unary : Bool) : Option Pick :=
  match best with
  | none => some ⟨position, rank⟩
  | some pick =>
      if rank < pick.rank || (rank == pick.rank && !unary) then some ⟨position, rank⟩
      else some pick

def pickFrom : (depth position : Nat) → (best : Option Pick) → List Token → Option Pick
  | _, _, best, [] => best
  | depth, position, best, token :: rest =>
      match token.kind with
      | .lParen => pickFrom (depth + 1) (position + 1) best rest
      | .rParen => pickFrom (depth - 1) (position + 1) best rest
      | kind =>
          let best := match depth, kind.rank? with
            | 0, some rank => Pick.prefer best position rank kind.isUnary
            | _, _ => best
          pickFrom depth (position + 1) best rest

/-- Position of the loosest operator outside parentheses. -/
def dominant? (tokens : List Token) : Option Nat :=
  (pickFrom 0 0 none tokens).map Pick.position

def number (text : String) (value : Option Nat) : Except ExprError UInt64 :=
  match value with
  | some n => .ok (UInt64.ofNat n)
  | none => .error (.badNumber text)

def orElse (value : Option UInt64) (error : ExprError) : Except ExprError UInt64 :=
  match value with
  | some word => .ok word
  | none => .error error

def tail (text : String) : String :=
  String.ofList (text.toList.drop 1)

/-- Value of a literal, a register or a symbol. -/
def operand (scope : Scope) (token : Token) : Except ExprError UInt64 :=
  match token.kind with
  | .hex =>
      number token.text (Numeral.ofHex? Numeral.wordLimit (token.text.toList.drop 2))
  | .dec => number token.text (Numeral.ofDecimal? Numeral.wordLimit token.text.toList)
  | .reg => orElse (scope.register (tail token.text)) (.unknownRegister token.text)
  | .ident => orElse (scope.symbol token.text) (.unknownSymbol token.text)
  | _ => .error .badExpression

def truth (holds : Bool) : UInt64 :=
  if holds then 1 else 0

/-- Division and remainder truncate signed values; comparisons are unsigned. -/
def binary (kind : TokenKind) (a b : UInt64) : Except ExprError UInt64 :=
  match kind with
  | .add => .ok (a + b)
  | .sub => .ok (a - b)
  | .mul => .ok (a * b)
  | .div => if b = 0 then .error .divideByZero else .ok (a.toInt64 / b.toInt64).toUInt64
  | .rem => if b = 0 then .error .divideByZero else .ok (a.toInt64 % b.toInt64).toUInt64
  | .bitAnd => .ok (a &&& b)
  | .bitOr => .ok (a ||| b)
  | .bitXor => .ok (a ^^^ b)
  | .eq => .ok (truth (a == b))
  | .ne => .ok (truth (a != b))
  | .lt => .ok (truth (a < b))
  | .gt => .ok (truth (b < a))
  | .le => .ok (truth (a ≤ b))
  | .ge => .ok (truth (b ≤ a))
  | .logicAnd => .ok (truth (a != 0 && b != 0))
  | .logicOr => .ok (truth (a != 0 || b != 0))
  | _ => .error .badExpression

def unary (scope : Scope) (kind : TokenKind) (value : UInt64) : Except ExprError UInt64 :=
  match kind with
  | .neg => .ok (0 - value)
  | .deref => scope.memory value
  | _ => .ok value

def evaluateRange (scope : Scope) (tokens : List Token) : Except ExprError UInt64 :=
  match tokens with
  | [] => .error .badExpression
  | [token] => operand scope token
  | first :: second :: rest =>
      let range := first :: second :: rest
      if wrapped range then evaluateRange scope (second :: rest).dropLast
      else
        match dominant? range with
        | none => .error .badExpression
        | some position =>
            match found : range[position]? with
            | none => .error .badExpression
            | some operator =>
                have := (List.getElem?_eq_some_iff.mp found).1
                if operator.kind.isUnary then
                  if position ≠ 0 then .error .badExpression
                  else do
                    let value ← evaluateRange scope (second :: rest)
                    unary scope operator.kind value
                else do
                  let a ← evaluateRange scope (range.take position)
                  let b ← evaluateRange scope (range.drop (position + 1))
                  binary operator.kind a b
termination_by tokens.length
decreasing_by
  all_goals
    simp only [List.length_cons, List.length_dropLast, List.length_take, List.length_drop, range]
      at *
    omega

end Expr

def evaluate (scope : Scope) (source : String) : Except ExprError UInt64 := do
  let tokens ← tokenize source
  if Expr.Balanced tokens then Expr.evaluateRange scope tokens
  else .error .unbalancedParens

end HartScope
