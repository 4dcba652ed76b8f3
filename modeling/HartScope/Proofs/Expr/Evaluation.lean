import HartScope.Proofs.Expr.Dominant
import HartScope.Proofs.Expr.Value

/-!
Evaluation follows the grammar.  The evaluator never builds a tree: it looks for parentheses around
the range and for the operator to split it at.  A derivation of the range fixes both answers, so a
range has at most one tree and the value of that tree; and a range that has a value has a tree,
since the split leaves operands that bind as tightly as the grammar asks.
-/

namespace HartScope.Expr

namespace Derives

variable {rank : Nat} {tree : Tree} {tokens : List Token}

theorem reads (derived : Derives rank tree tokens) : Reads 0 tokens 0 := by
  induction derived with
  | leaf operand =>
      refine .plain ?_ .nil
      constructor <;> intro kind <;> simp [kind, operandKinds] at operand
  | group opening closing _ ih => exact ih.group opening closing
  | unary operator _ ih =>
      exact .plain (TokenKind.plain_of_rank? (rank?_of_mem_unaryKinds operator)) ih
  | binary operator _ _ leftIH rightIH =>
      exact leftIH.append
        (.plain (TokenKind.plain_of_rank? (rank?_of_mem_binaryKinds operator).1) rightIH)
  | tighter _ ih => exact ih

/-- What a rank derives has no looser operator outside parentheses. -/
theorem tight (derived : Derives rank tree tokens) : Tight rank tokens := by
  induction derived with
  | @leaf token operand =>
      have plain : token.kind.Plain := by
        constructor <;> intro kind <;> simp [kind, operandKinds] at operand
      intro pick member
      rw [exposed_operand _ _ _ plain (rank?_of_mem_operandKinds operand)] at member
      simp [exposed] at member
  | group opening closing inside _ =>
      intro pick member
      rw [inside.reads.exposed_group opening closing] at member
      simp at member
  | unary operator _ ih =>
      intro pick member
      rw [exposed_operator _ _ (rank?_of_mem_unaryKinds operator)] at member
      rcases List.mem_cons.mp member with rfl | later
      · exact Nat.le_refl _
      · exact (tight_iff _).mp ih pick later
  | binary operator leftOperand _ leftIH rightIH =>
      intro pick member
      rw [leftOperand.reads.exposed_append,
        exposed_operator _ _ (rank?_of_mem_binaryKinds operator).1] at member
      rcases List.mem_append.mp member with earlier | member
      · exact leftIH pick earlier
      · rcases List.mem_cons.mp member with rfl | later
        · exact Nat.le_refl _
        · exact Nat.le_of_succ_le ((tight_iff _).mp rightIH pick later)
  | tighter _ ih => exact ih.mono (Nat.le_succ _)

/-- Only its own operators keep a range from being derived at a tighter rank. -/
theorem raise {loose : Nat} (derived : Derives loose tree tokens) (tight : Tight rank tokens)
    (bound : rank ≤ unaryRank) : Derives rank tree tokens := by
  cases tree with
  | leaf token =>
      obtain ⟨rfl, operand⟩ := derived.leaf_inv
      exact (Derives.leaf operand).loosen (Nat.le_succ_of_le bound)
  | group inner =>
      obtain ⟨first, last, inside, rfl, opening, closing, content⟩ := derived.group_inv
      exact (Derives.group opening closing content).loosen (Nat.le_succ_of_le bound)
  | unary operator argument =>
      obtain ⟨token, rest, rfl, rfl, member, operand⟩ := derived.unary_inv
      exact (Derives.unary member operand).loosen bound
  | binary operator left right =>
      obtain ⟨level, before, token, after, rfl, rfl, member, leftOperand, rightOperand⟩ :=
        derived.binary_inv
      have exposes : (⟨0 + before.length, level⟩ : Pick) ∈
          exposed 0 0 (before ++ token :: after) := by
        rw [leftOperand.reads.exposed_append,
          exposed_operator _ _ (rank?_of_mem_binaryKinds member).1]
        simp
      exact (Derives.binary member leftOperand rightOperand).loosen (tight _ exposes)

end Derives

/-- The evaluation of a range of at least two tokens. -/
theorem evaluateRange_long (scope : Scope) {tokens : List Token} (long : 2 ≤ tokens.length) :
    evaluateRange scope tokens =
      if wrapped tokens then evaluateRange scope tokens.tail.dropLast
      else
        match dominant? tokens with
        | none => .error .badExpression
        | some position =>
            match tokens[position]? with
            | none => .error .badExpression
            | some operator =>
                if operator.kind.isUnary then
                  if position ≠ 0 then .error .badExpression
                  else evaluateRange scope tokens.tail >>= unary scope operator.kind
                else
                  evaluateRange scope (tokens.take position) >>= fun a =>
                    evaluateRange scope (tokens.drop (position + 1)) >>= binary operator.kind a := by
  match tokens with
  | first :: second :: rest =>
      rw [evaluateRange]
      split
      · rfl
      · cases dominant? (first :: second :: rest) with
        | none => rfl
        | some position =>
            dsimp only
            split
            · rename_i absent
              rw [absent]
            · rename_i operator found
              rw [found]
              rfl

theorem evaluateRange_group (scope : Scope) {first last : Token} {inner : List Token}
    (opening : first.kind = .lParen) (closing : last.kind = .rParen) (inside : Reads 0 inner 0) :
    evaluateRange scope (first :: inner ++ [last]) = evaluateRange scope inner := by
  rw [evaluateRange_long scope (by simp), if_pos (wrapped_group opening closing inside)]
  simp

theorem evaluateRange_unary (scope : Scope) {token : Token} {rest : List Token}
    (operator : token.kind ∈ unaryKinds) (nonempty : rest ≠ []) (tight : Tight unaryRank rest) :
    evaluateRange scope (token :: rest) = evaluateRange scope rest >>= unary scope token.kind := by
  have ranked := rank?_of_mem_unaryKinds operator
  have long : 2 ≤ (token :: rest).length := by
    have := List.length_pos_iff.mpr nonempty
    rw [List.length_cons]
    omega
  rw [evaluateRange_long scope long, not_wrapped_cons (TokenKind.plain_of_rank? ranked),
    dominant?_unary ranked tight]
  simp [isUnary_iff.mpr operator]

theorem evaluateRange_binary (scope : Scope) {token : Token} {left right : List Token} {rank : Nat}
    (operator : token.kind ∈ binaryKinds rank) (nonempty : left ≠ []) (read : Reads 0 left 0)
    (leftTight : Tight rank left) (rightTight : Tight (rank + 1) right) :
    evaluateRange scope (left ++ token :: right) =
      evaluateRange scope left >>= fun a =>
        evaluateRange scope right >>= binary token.kind a := by
  obtain ⟨ranked, loose⟩ := rank?_of_mem_binaryKinds operator
  have long : 2 ≤ (left ++ token :: right).length := by
    have := List.length_pos_iff.mpr nonempty
    rw [List.length_append, List.length_cons]
    omega
  have infixed : ¬ token.kind.isUnary = true := by
    rw [isUnary_of_rank? ranked, beq_iff_eq]
    omega
  rw [evaluateRange_long scope long, not_wrapped_append nonempty read,
    dominant?_binary read ranked loose leftTight rightTight]
  simp [infixed]

theorem Derives.evaluateRange_eq (scope : Scope) {rank : Nat} {tree : Tree} {tokens : List Token}
    (derived : Derives rank tree tokens) : evaluateRange scope tokens = tree.value scope := by
  induction derived with
  | leaf _ =>
      rw [evaluateRange, operand_eq_leafValue]
      rfl
  | group opening closing inside ih =>
      rw [evaluateRange_group scope opening closing inside.reads, ih]
      rfl
  | unary operator operand ih =>
      have evaluated := evaluateRange_unary scope operator operand.ne_nil operand.tight
      simp only [evaluated, ih, funext (unary_eq_unaryValue scope _)]
      rfl
  | binary operator leftOperand rightOperand leftIH rightIH =>
      have evaluated := evaluateRange_binary scope operator leftOperand.ne_nil leftOperand.reads
        leftOperand.tight rightOperand.tight
      simp only [evaluated, leftIH, rightIH, funext (binary_eq_binaryValue _ _)]
      rfl
  | tighter _ ih => exact ih

/-- Where the production at the root of a tree cuts the range. -/
inductive Root where
  | leaf
  | group
  | unary
  | binary (position : Nat)
deriving DecidableEq, Repr

/-- The only production that can derive the range. -/
def rootOf (tokens : List Token) : Root :=
  if tokens.length < 2 then .leaf
  else if wrapped tokens then .group
  else
    match dominant? tokens with
    | some (position + 1) => .binary (position + 1)
    | _ => .unary

def Tree.length : Tree → Nat
  | leaf _ => 1
  | group inner => inner.length + 2
  | unary _ argument => argument.length + 1
  | binary _ left right => left.length + right.length + 1

def Tree.root : Tree → Root
  | leaf _ => .leaf
  | group _ => .group
  | unary _ _ => .unary
  | binary _ left _ => .binary left.length

namespace Derives

variable {rank : Nat} {tree : Tree} {tokens : List Token}

theorem length_eq (derived : Derives rank tree tokens) : tokens.length = tree.length := by
  induction derived with
  | leaf _ => rfl
  | group _ _ _ ih =>
      simp only [List.cons_append, List.length_cons, List.length_append, List.length_nil, ih,
        Tree.length]
  | unary _ _ ih => rw [List.length_cons, ih, Tree.length]
  | binary _ _ _ leftIH rightIH =>
      rw [List.length_append, List.length_cons, leftIH, rightIH, Tree.length, Nat.add_assoc]
  | tighter _ ih => exact ih

theorem rootOf_eq (derived : Derives rank tree tokens) : rootOf tokens = tree.root := by
  induction derived with
  | leaf _ => rfl
  | group opening closing inside _ =>
      rw [rootOf, if_neg (by simp), if_pos (wrapped_group opening closing inside.reads)]
      rfl
  | @unary token _ rest operator operand _ =>
      have ranked := rank?_of_mem_unaryKinds operator
      have long := List.length_pos_iff.mpr operand.ne_nil
      rw [rootOf, not_wrapped_cons (TokenKind.plain_of_rank? ranked),
        dominant?_unary ranked operand.tight, if_neg (by rw [List.length_cons]; omega)]
      rfl
  | @binary _ token left right before after operator leftOperand rightOperand _ _ =>
      obtain ⟨ranked, loose⟩ := rank?_of_mem_binaryKinds operator
      have long := List.length_pos_iff.mpr leftOperand.ne_nil
      rw [rootOf, not_wrapped_append leftOperand.ne_nil leftOperand.reads,
        dominant?_binary leftOperand.reads ranked loose leftOperand.tight rightOperand.tight,
        if_neg (by rw [List.length_append, List.length_cons]; omega), Tree.root,
        ← leftOperand.length_eq]
      obtain ⟨position, same⟩ := Nat.exists_eq_succ_of_ne_zero long.ne'
      rw [same]
      rfl
  | tighter _ ih => exact ih

theorem unique {other : Nat} {second : Tree} (derived : Derives rank tree tokens)
    (again : Derives other second tokens) : second = tree := by
  have roots : second.root = tree.root := again.rootOf_eq.symm.trans derived.rootOf_eq
  induction tree generalizing second tokens rank other with
  | leaf token =>
      cases second with
      | leaf _ =>
          obtain ⟨rfl, _⟩ := derived.leaf_inv
          obtain ⟨same, _⟩ := again.leaf_inv
          cases same
          rfl
      | group | unary | binary => contradiction
  | group inner ih =>
      cases second with
      | group _ =>
          obtain ⟨_, _, _, rfl, _, _, inside⟩ := derived.group_inv
          obtain ⟨_, _, _, same, _, _, insideAgain⟩ := again.group_inv
          simp only [List.cons_append, List.cons.injEq] at same
          obtain ⟨rfl, _⟩ := List.append_inj' same.2 rfl
          rw [ih inside insideAgain (insideAgain.rootOf_eq.symm.trans inside.rootOf_eq)]
      | leaf | unary | binary => contradiction
  | unary operator argument ih =>
      cases second with
      | unary _ _ =>
          obtain ⟨_, _, rfl, rfl, _, operand⟩ := derived.unary_inv
          obtain ⟨_, _, same, rfl, _, operandAgain⟩ := again.unary_inv
          cases same
          rw [ih operand operandAgain (operandAgain.rootOf_eq.symm.trans operand.rootOf_eq)]
      | leaf | group | binary => contradiction
  | binary operator left right leftIH rightIH =>
      cases second with
      | binary _ leftAgain rightAgain =>
          obtain ⟨_, _, _, _, rfl, rfl, _, first, rest⟩ := derived.binary_inv
          obtain ⟨_, _, _, _, same, rfl, _, firstAgain, restAgain⟩ := again.binary_inv
          simp only [Tree.root, Root.binary.injEq] at roots
          rw [← firstAgain.length_eq, ← first.length_eq] at roots
          obtain ⟨rfl, tails⟩ := List.append_inj same roots.symm
          cases tails
          rw [leftIH first firstAgain (firstAgain.rootOf_eq.symm.trans first.rootOf_eq),
            rightIH rest restAgain (restAgain.rootOf_eq.symm.trans rest.rootOf_eq)]
      | leaf | group | unary => contradiction

end Derives

theorem mem_operandKinds_of_operand {scope : Scope} {token : Token} {value : UInt64}
    (evaluated : operand scope token = .ok value) : token.kind ∈ operandKinds := by
  unfold operand at evaluated
  split at evaluated
  case h_5 => contradiction
  all_goals
    rename_i kind
    simp [kind, operandKinds]

/-- What the evaluator did with a range of at least two tokens that has a value. -/
theorem evaluateRange_inv {scope : Scope} {tokens : List Token} {value : UInt64}
    (long : 2 ≤ tokens.length) (read : Reads 0 tokens 0)
    (evaluated : evaluateRange scope tokens = .ok value) :
    (∃ first inner last, tokens = first :: inner ++ [last] ∧ first.kind = .lParen ∧
      last.kind = .rParen ∧ Reads 0 inner 0 ∧ evaluateRange scope inner = .ok value) ∨
    (∃ token rest word, tokens = token :: rest ∧ token.kind ∈ unaryKinds ∧ Reads 0 rest 0 ∧
      Tight unaryRank rest ∧ evaluateRange scope rest = .ok word) ∨
    ∃ left token right rank a b, tokens = left ++ token :: right ∧
      token.kind ∈ binaryKinds rank ∧ Reads 0 left 0 ∧ Reads 0 right 0 ∧ Tight rank left ∧
      Tight (rank + 1) right ∧ evaluateRange scope left = .ok a ∧
      evaluateRange scope right = .ok b := by
  by_cases wraps : wrapped tokens = true
  · obtain ⟨first, inner, last, rfl, opening, closing, inside⟩ := group_of_wrapped wraps
    rw [evaluateRange_group scope opening closing inside] at evaluated
    exact .inl ⟨first, inner, last, rfl, opening, closing, inside, evaluated⟩
  · rw [evaluateRange_long scope long, if_neg wraps] at evaluated
    cases chosen : dominant? tokens with
    | none => simp [chosen] at evaluated
    | some position =>
        obtain ⟨left, token, right, rank, rfl, rfl, ranked, leftRead, rightRead, leftTight,
          rightTight, strict⟩ := split_of_dominant? read chosen
        simp only [chosen, List.getElem?_append_right (Nat.le_refl _), Nat.sub_self,
          List.getElem?_cons_zero] at evaluated
        by_cases prefixed : token.kind.isUnary = true
        · have tightest : rank = unaryRank := by
            simpa [isUnary_of_rank? ranked] using prefixed
          subst tightest
          rw [if_pos prefixed] at evaluated
          split at evaluated
          · contradiction
          · rename_i first
            obtain rfl := List.length_eq_zero_iff.mp (not_not.mp first)
            simp only [List.nil_append, List.tail_cons] at evaluated
            cases operand : evaluateRange scope right with
            | error reason =>
                rw [operand] at evaluated
                cases evaluated
            | ok word =>
                exact .inr (.inl ⟨token, right, word, rfl, isUnary_iff.mp prefixed, rightRead,
                  rightTight, operand⟩)
        · have loose : rank < unaryRank := by
            have bound := rank?_le ranked
            have distinct : rank ≠ unaryRank := by
              simpa [isUnary_of_rank? ranked] using prefixed
            omega
          simp only [prefixed, List.take_left, Bool.false_eq_true, if_false] at evaluated
          cases first : evaluateRange scope left with
          | error reason =>
              rw [first] at evaluated
              cases evaluated
          | ok a =>
              have rest : (left ++ token :: right).drop (left.length + 1) = right := by
                simp
              rw [first, rest] at evaluated
              cases second : evaluateRange scope right with
              | error reason =>
                  rw [second] at evaluated
                  cases evaluated
              | ok b =>
                  exact .inr (.inr ⟨left, token, right, rank, a, b, rfl,
                    mem_binaryKinds_of_rank? ranked loose, leftRead, rightRead, leftTight,
                    strict loose, first, second⟩)

/-- A balanced range that has a value is an expression of the grammar. -/
theorem derives_of_evaluateRange {scope : Scope} {tokens : List Token} {value : UInt64}
    (read : Reads 0 tokens 0) (evaluated : evaluateRange scope tokens = .ok value) :
    ∃ tree, Derives 0 tree tokens := by
  induction size : tokens.length using Nat.strongRecOn generalizing tokens value with
  | ind size ih =>
      subst size
      match tokens with
      | [] => simp [evaluateRange] at evaluated
      | [token] =>
          rw [evaluateRange] at evaluated
          exact ⟨_, (Derives.leaf (mem_operandKinds_of_operand evaluated)).loosen (Nat.zero_le _)⟩
      | first :: second :: rest =>
          rcases evaluateRange_inv (by simp) read evaluated with
            ⟨opening, inner, closing, same, opens, closes, inside, value⟩ |
            ⟨token, operand, word, same, operator, inside, tight, value⟩ |
            ⟨left, token, right, rank, a, b, same, operator, leftRead, rightRead, leftTight,
              rightTight, leftValue, rightValue⟩
          · rw [same] at ih ⊢
            obtain ⟨tree, derived⟩ := ih inner.length
              (by simp only [List.length_append, List.length_cons]; omega) inside value rfl
            exact ⟨_, (Derives.group opens closes derived).loosen (Nat.zero_le _)⟩
          · rw [same] at ih ⊢
            obtain ⟨tree, derived⟩ := ih operand.length (by simp) inside value rfl
            exact ⟨_, (Derives.unary operator (derived.raise tight (Nat.le_refl _))).loosen
              (Nat.zero_le _)⟩
          · rw [same] at ih ⊢
            have loose := (rank?_of_mem_binaryKinds operator).2
            obtain ⟨leftTree, leftDerived⟩ := ih left.length
              (by simp only [List.length_append, List.length_cons]; omega) leftRead leftValue rfl
            obtain ⟨rightTree, rightDerived⟩ := ih right.length
              (by simp only [List.length_append, List.length_cons]; omega) rightRead rightValue rfl
            exact ⟨_, (Derives.binary operator (leftDerived.raise leftTight (Nat.le_of_lt loose))
              (rightDerived.raise rightTight loose)).loosen (Nat.zero_le _)⟩

end HartScope.Expr

namespace HartScope

open HartScope.Expr

/-- Evaluation agrees with the grammar on every source text: a derivable token list has exactly one
tree and its value, or the first error met in it; a list that is not derivable has an error. -/
theorem evaluate_agrees_with_grammar (scope : Scope) (source : String) :
    match tokenize source with
    | .error reason => evaluate scope source = .error reason
    | .ok tokens =>
        (∃ tree, Derives 0 tree tokens ∧ (∀ other, Derives 0 other tokens → other = tree) ∧
          evaluate scope source = tree.value scope) ∨
        (∀ tree, ¬ Derives 0 tree tokens) ∧ ∃ reason, evaluate scope source = .error reason := by
  cases lexed : tokenize source with
  | error reason =>
      dsimp only
      rw [evaluate, lexed]
      rfl
  | ok tokens =>
      have evaluated : evaluate scope source =
          if Balanced tokens then evaluateRange scope tokens else .error .unbalancedParens := by
        rw [evaluate, lexed]
        rfl
      dsimp only
      rw [evaluated]
      by_cases derivable : ∃ tree, Derives 0 tree tokens
      · obtain ⟨tree, derived⟩ := derivable
        refine .inl ⟨tree, derived, fun other again => derived.unique again, ?_⟩
        rw [if_pos (balanced_iff_reads.mpr derived.reads), derived.evaluateRange_eq scope]
      · refine .inr ⟨fun tree derived => derivable ⟨tree, derived⟩, ?_⟩
        split
        · rename_i balanced
          cases outcome : evaluateRange scope tokens with
          | error reason => exact ⟨reason, rfl⟩
          | ok value =>
              exact absurd (derives_of_evaluateRange (balanced_iff_reads.mp balanced) outcome)
                derivable
        · exact ⟨_, rfl⟩

end HartScope
