import HartScope.Proofs.Expr.Parentheses
import HartScope.Proofs.Expr.Grammar

/-!
The operators of a token range that stand outside parentheses, and the one among them that the range
is split at.  `exposed` lists them from the left; the split operator is the loosest one, the last of
its rank if it is binary and the first if it is unary.
-/

namespace HartScope.Expr

/-- The operators outside parentheses, in a range that starts at `position`. -/
def exposed : (depth position : Nat) → List Token → List Pick
  | _, _, [] => []
  | depth, position, token :: rest =>
      match token.kind with
      | .lParen => exposed (depth + 1) (position + 1) rest
      | .rParen => exposed (depth - 1) (position + 1) rest
      | kind =>
          match depth, kind.rank? with
          | 0, some rank => ⟨position, rank⟩ :: exposed 0 (position + 1) rest
          | _, _ => exposed depth (position + 1) rest

def Pick.better (best : Option Pick) (pick : Pick) : Option Pick :=
  Pick.prefer best pick.position pick.rank (pick.rank == unaryRank)

section Equations

variable {token : Token} (depth position : Nat) (rest : List Token)

theorem exposed_lParen (kind : token.kind = .lParen) :
    exposed depth position (token :: rest) = exposed (depth + 1) (position + 1) rest := by
  simp [exposed, kind]

theorem exposed_rParen (kind : token.kind = .rParen) :
    exposed depth position (token :: rest) = exposed (depth - 1) (position + 1) rest := by
  simp [exposed, kind]

theorem exposed_inner (kind : token.kind.Plain) :
    exposed (depth + 1) position (token :: rest) = exposed (depth + 1) (position + 1) rest := by
  obtain ⟨notOpening, notClosing⟩ := kind
  cases shape : token.kind <;> simp_all [exposed]

theorem exposed_operator {rank : Nat} (ranked : token.kind.rank? = some rank) :
    exposed 0 position (token :: rest) = ⟨position, rank⟩ :: exposed 0 (position + 1) rest := by
  cases shape : token.kind <;> rw [shape] at ranked <;> cases ranked <;>
    simp [exposed, shape, TokenKind.rank?]

theorem exposed_operand (plain : token.kind.Plain) (unranked : token.kind.rank? = none) :
    exposed depth position (token :: rest) = exposed depth (position + 1) rest := by
  obtain ⟨notOpening, notClosing⟩ := plain
  cases shape : token.kind <;> simp_all [exposed, TokenKind.rank?]

end Equations

theorem pickFrom_eq_foldl (depth position : Nat) (best : Option Pick) (tokens : List Token) :
    pickFrom depth position best tokens = (exposed depth position tokens).foldl Pick.better best := by
  induction tokens generalizing depth position best with
  | nil => rfl
  | cons token rest ih =>
      rcases token.kind.paren_cases with opening | closing | plain
      · rw [exposed_lParen _ _ _ opening, ← ih]
        simp [pickFrom, opening]
      · rw [exposed_rParen _ _ _ closing, ← ih]
        simp [pickFrom, closing]
      · cases depth with
        | succ depth =>
            rw [exposed_inner _ _ _ plain, ← ih]
            obtain ⟨notOpening, notClosing⟩ := plain
            cases shape : token.kind <;> simp_all [pickFrom]
        | zero =>
            cases ranked : token.kind.rank? with
            | none =>
                rw [exposed_operand _ _ _ plain ranked, ← ih]
                obtain ⟨notOpening, notClosing⟩ := plain
                cases shape : token.kind <;> simp_all [pickFrom, TokenKind.rank?]
            | some rank =>
                rw [exposed_operator _ _ ranked, List.foldl_cons, ← ih, Pick.better,
                  ← isUnary_of_rank? ranked]
                cases shape : token.kind <;> rw [shape] at ranked <;> cases ranked <;>
                  simp [pickFrom, shape, TokenKind.rank?]

namespace Reads

variable {depth after : Nat} {tokens left : List Token}

theorem exposed_append (read : Reads depth left after) (position : Nat) (right : List Token) :
    exposed depth position (left ++ right) =
      exposed depth position left ++ exposed after (position + left.length) right := by
  induction read generalizing position with
  | nil => rfl
  | @opening _ _ _ rest kind _ ih =>
      rw [List.cons_append, exposed_lParen _ _ _ kind, exposed_lParen _ _ _ kind, ih,
        List.length_cons, Nat.add_right_comm]
      rfl
  | closing kind _ ih =>
      rw [List.cons_append, exposed_rParen _ _ _ kind, exposed_rParen _ _ _ kind, Nat.add_sub_cancel,
        ih, List.length_cons, Nat.add_right_comm]
      rfl
  | @plain depth _ token _ kind _ ih =>
      rw [List.cons_append, List.length_cons, Nat.add_comm _ 1, ← Nat.add_assoc]
      cases depth with
      | succ depth => rw [exposed_inner _ _ _ kind, exposed_inner _ _ _ kind, ih]
      | zero =>
          cases ranked : token.kind.rank? with
          | none => rw [exposed_operand _ _ _ kind ranked, exposed_operand _ _ _ kind ranked, ih]
          | some rank =>
              rw [exposed_operator _ _ ranked, exposed_operator _ _ ranked, ih, List.cons_append]

theorem exposed_inside (read : Reads depth tokens after) (position : Nat) :
    exposed (depth + 1) position tokens = [] := by
  induction read generalizing position with
  | nil => rfl
  | opening kind _ ih => rw [exposed_lParen _ _ _ kind, ih]
  | closing kind _ ih => rw [exposed_rParen _ _ _ kind, Nat.add_sub_cancel, ih]
  | plain kind _ ih => rw [exposed_inner _ _ _ kind, ih]

theorem exposed_group {first last : Token} (opening : first.kind = .lParen)
    (closing : last.kind = .rParen) (inside : Reads 0 tokens 0) (position : Nat) :
    exposed 0 position (first :: tokens ++ [last]) = [] := by
  rw [List.cons_append, exposed_lParen _ _ _ opening, (inside.deepen 1).exposed_append,
    inside.exposed_inside, exposed_rParen _ _ _ closing, List.nil_append]
  rfl

end Reads

/-- The operators of a range keep their ranks wherever the range starts. -/
theorem exposed_ranks (depth position other : Nat) (tokens : List Token) :
    (exposed depth position tokens).map Pick.rank = (exposed depth other tokens).map Pick.rank := by
  induction tokens generalizing depth position other with
  | nil => rfl
  | cons token rest ih =>
      rcases token.kind.paren_cases with opening | closing | plain
      · rw [exposed_lParen _ _ _ opening, exposed_lParen _ _ _ opening]
        exact ih _ _ _
      · rw [exposed_rParen _ _ _ closing, exposed_rParen _ _ _ closing]
        exact ih _ _ _
      · cases depth with
        | succ depth =>
            rw [exposed_inner _ _ _ plain, exposed_inner _ _ _ plain]
            exact ih _ _ _
        | zero =>
            cases ranked : token.kind.rank? with
            | none =>
                rw [exposed_operand _ _ _ plain ranked, exposed_operand _ _ _ plain ranked]
                exact ih _ _ _
            | some rank =>
                rw [exposed_operator _ _ ranked, exposed_operator _ _ ranked, List.map_cons,
                  List.map_cons, ih]

/-- A range cut at an operator outside parentheses. -/
inductive Cut (depth position : Nat) (pick : Pick) :
    (tokens : List Token) → (before behind : List Pick) → Prop
  | mk (left : List Token) {right : List Token} {operator : Token}
      (place : pick.position = position + left.length) (read : Reads depth left 0)
      (ranked : operator.kind.rank? = some pick.rank) :
      Cut depth position pick (left ++ operator :: right) (exposed depth position left)
        (exposed 0 (pick.position + 1) right)

/-- A cut of the rest is a cut of the whole, with what the first token adds to the left. -/
theorem Cut.cons {depth inner position : Nat} {pick : Pick} {token : Token} {rest : List Token}
    {before behind : List Pick} (cut : Cut inner (position + 1) pick rest before behind)
    (read : ∀ {left}, Reads inner left 0 → Reads depth (token :: left) 0) (added : List Pick)
    (seen : ∀ left, exposed depth position (token :: left) =
      added ++ exposed inner (position + 1) left) :
    Cut depth position pick (token :: rest) (added ++ before) behind := by
  cases cut with
  | mk left place inside ranked =>
      rw [← seen]
      refine .mk (token :: left) ?_ (read inside) ranked
      rw [place, List.length_cons]
      omega

theorem Reads.cut {depth position : Nat} {tokens : List Token} {pick : Pick}
    {before behind : List Pick} {after : Nat} (read : Reads depth tokens after)
    (found : exposed depth position tokens = before ++ pick :: behind) :
    Cut depth position pick tokens before behind := by
  induction read generalizing position before with
  | nil => simp [exposed] at found
  | opening kind _ ih =>
      rw [exposed_lParen _ _ _ kind] at found
      exact (ih found).cons (.opening kind) [] fun left => exposed_lParen _ _ left kind
  | closing kind _ ih =>
      rw [exposed_rParen _ _ _ kind] at found
      exact (ih found).cons (.closing kind) [] fun left => exposed_rParen _ _ left kind
  | @plain depth _ token _ kind _ ih =>
      cases depth with
      | succ depth =>
          rw [exposed_inner _ _ _ kind] at found
          exact (ih found).cons (.plain kind) [] fun left => exposed_inner _ _ left kind
      | zero =>
          cases ranked : token.kind.rank? with
          | none =>
              rw [exposed_operand _ _ _ kind ranked] at found
              exact (ih found).cons (.plain kind) []
                fun left => exposed_operand _ _ left kind ranked
          | some rank =>
              rw [exposed_operator _ _ ranked] at found
              cases before with
              | nil =>
                  simp only [List.nil_append, List.cons.injEq] at found
                  obtain ⟨rfl, rfl⟩ := found
                  exact .mk [] rfl .nil ranked
              | cons first before =>
                  simp only [List.cons_append, List.cons.injEq] at found
                  obtain ⟨rfl, found⟩ := found
                  exact (ih found).cons (.plain kind) [_]
                    fun left => exposed_operator _ left ranked

end HartScope.Expr
