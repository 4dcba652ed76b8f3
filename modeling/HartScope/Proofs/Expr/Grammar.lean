import HartScope.Expr.Evaluate

/-!
The precedence grammar of expressions.  A nonterminal is a rank: rank zero is a whole expression,
each rank up to eight has the binary operators that bind so strongly and associate to the left,
`unaryRank` has the prefix operators and `primaryRank` the operands and the parenthesized
expressions.  Every nonterminal also derives what the next one derives.
-/

namespace HartScope.Expr

/-- What an expression says once its operators have found their operands.  Parentheses stay, so a
tree and its tokens determine each other. -/
inductive Tree where
  | leaf (token : Token)
  | group (inner : Tree)
  | unary (operator : TokenKind) (argument : Tree)
  | binary (operator : TokenKind) (left right : Tree)
deriving DecidableEq, Repr

def operandKinds : List TokenKind :=
  [.hex, .dec, .reg, .ident]

def unaryKinds : List TokenKind :=
  [.pos, .neg, .deref]

def binaryKinds : (rank : Nat) → List TokenKind
  | 0 => [.logicOr]
  | 1 => [.logicAnd]
  | 2 => [.bitOr]
  | 3 => [.bitXor]
  | 4 => [.bitAnd]
  | 5 => [.eq, .ne]
  | 6 => [.lt, .gt, .le, .ge]
  | 7 => [.add, .sub]
  | 8 => [.mul, .div, .rem]
  | _ => []

def unaryRank : Nat := 9

def primaryRank : Nat := 10

inductive Derives : (rank : Nat) → Tree → List Token → Prop
  | leaf {token : Token} (operand : token.kind ∈ operandKinds) :
      Derives primaryRank (.leaf token) [token]
  | group {first last : Token} {inner : Tree} {tokens : List Token}
      (opening : first.kind = .lParen) (closing : last.kind = .rParen)
      (inside : Derives 0 inner tokens) :
      Derives primaryRank (.group inner) (first :: tokens ++ [last])
  | unary {token : Token} {argument : Tree} {tokens : List Token}
      (operator : token.kind ∈ unaryKinds) (operand : Derives unaryRank argument tokens) :
      Derives unaryRank (.unary token.kind argument) (token :: tokens)
  | binary {rank : Nat} {token : Token} {left right : Tree} {before after : List Token}
      (operator : token.kind ∈ binaryKinds rank) (leftOperand : Derives rank left before)
      (rightOperand : Derives (rank + 1) right after) :
      Derives rank (.binary token.kind left right) (before ++ token :: after)
  | tighter {rank : Nat} {tree : Tree} {tokens : List Token}
      (derived : Derives (rank + 1) tree tokens) : Derives rank tree tokens

theorem rank?_of_mem_binaryKinds {kind : TokenKind} {rank : Nat}
    (member : kind ∈ binaryKinds rank) : kind.rank? = some rank ∧ rank < unaryRank := by
  unfold binaryKinds at member
  split at member
  all_goals cases kind <;> simp at member <;> decide

theorem mem_binaryKinds_of_rank? {kind : TokenKind} {rank : Nat}
    (ranked : kind.rank? = some rank) (loose : rank < unaryRank) : kind ∈ binaryKinds rank := by
  cases kind <;> cases ranked <;> revert loose <;> decide

theorem rank?_of_mem_unaryKinds {kind : TokenKind} (member : kind ∈ unaryKinds) :
    kind.rank? = some unaryRank := by
  cases kind <;> revert member <;> decide

theorem rank?_of_mem_operandKinds {kind : TokenKind} (member : kind ∈ operandKinds) :
    kind.rank? = none := by
  cases kind <;> revert member <;> decide

theorem isUnary_iff {kind : TokenKind} : kind.isUnary = true ↔ kind ∈ unaryKinds := by
  cases kind <;> decide

theorem isUnary_of_rank? {kind : TokenKind} {rank : Nat} (ranked : kind.rank? = some rank) :
    kind.isUnary = (rank == unaryRank) := by
  cases kind <;> cases ranked <;> rfl

theorem rank?_le {kind : TokenKind} {rank : Nat} (ranked : kind.rank? = some rank) :
    rank ≤ unaryRank := by
  cases kind <;> cases ranked <;> decide

namespace Derives

variable {rank : Nat} {tokens : List Token}

theorem loosen {tree : Tree} {tight : Nat} (derived : Derives tight tree tokens)
    (loose : rank ≤ tight) : Derives rank tree tokens := by
  obtain ⟨distance, rfl⟩ := Nat.exists_eq_add_of_le loose
  induction distance with
  | zero => exact derived
  | succ distance ih => exact ih (.tighter derived) (Nat.le_add_right ..)

theorem leaf_inv {token : Token} (derived : Derives rank (.leaf token) tokens) :
    tokens = [token] ∧ token.kind ∈ operandKinds := by
  generalize shape : Tree.leaf token = tree at derived
  induction derived with
  | leaf operand => cases shape; exact ⟨rfl, operand⟩
  | tighter _ ih => exact ih shape
  | group | unary | binary => contradiction

theorem group_inv {inner : Tree} (derived : Derives rank (.group inner) tokens) :
    ∃ first last inside, tokens = first :: inside ++ [last] ∧ first.kind = .lParen ∧
      last.kind = .rParen ∧ Derives 0 inner inside := by
  generalize shape : Tree.group inner = tree at derived
  induction derived with
  | group opening closing inside =>
      cases shape
      exact ⟨_, _, _, rfl, opening, closing, inside⟩
  | tighter _ ih => exact ih shape
  | leaf | unary | binary => contradiction

theorem unary_inv {operator : TokenKind} {argument : Tree}
    (derived : Derives rank (.unary operator argument) tokens) :
    ∃ token rest, tokens = token :: rest ∧ token.kind = operator ∧ operator ∈ unaryKinds ∧
      Derives unaryRank argument rest := by
  generalize shape : Tree.unary operator argument = tree at derived
  induction derived with
  | unary member operand =>
      cases shape
      exact ⟨_, _, rfl, rfl, member, operand⟩
  | tighter _ ih => exact ih shape
  | leaf | group | binary => contradiction

theorem binary_inv {operator : TokenKind} {left right : Tree}
    (derived : Derives rank (.binary operator left right) tokens) :
    ∃ level before token after, tokens = before ++ token :: after ∧ token.kind = operator ∧
      operator ∈ binaryKinds level ∧ Derives level left before ∧
      Derives (level + 1) right after := by
  generalize shape : Tree.binary operator left right = tree at derived
  induction derived with
  | binary member leftOperand rightOperand =>
      cases shape
      exact ⟨_, _, _, _, rfl, rfl, member, leftOperand, rightOperand⟩
  | tighter _ ih => exact ih shape
  | leaf | group | unary => contradiction

theorem ne_nil {tree : Tree} (derived : Derives rank tree tokens) : tokens ≠ [] := by
  induction derived with
  | leaf | group | unary | binary => simp
  | tighter _ ih => exact ih

end Derives

end HartScope.Expr
