import HartScope.Proofs.Expr.Decrements
import HartScope.Proofs.Expr.Evaluation
import HartScope.Proofs.Expr.Tokenization
import Mathlib.Data.List.Chain

/-!
The ranges that an evaluation visits.  The parentheses of a text are checked once, before the first range
is evaluated; every call then passes on a shorter part of its range, and that part is balanced again.  In
a balanced part of the tokens of a text a unary operator can be the loosest one only at the start, since
behind an operand the lexer makes none.
-/

namespace HartScope.Expr

open Lexer TokenKind

/-- The evaluation of a range that is split at an operator, with its calls as steps of a monad. -/
def evaluateSplitM {m : Type → Type} [Monad m] (scope : Scope)
    (call : List Token → m (Except ExprError UInt64)) (range : List Token) (position : Nat)
    (operator : Token) : m (Except ExprError UInt64) :=
  if operator.kind.isUnary then
    if position ≠ 0 then pure (.error .badExpression)
    else do
      let value ← call range.tail
      return value >>= unary scope operator.kind
  else do
    match ← call (range.take position) with
    | .error reason => return .error reason
    | .ok a =>
        let b ← call (range.drop (position + 1))
        return b >>= binary operator.kind a

/-- `evaluateRange` with its calls of itself as steps of a monad. -/
def evaluateRangeM {m : Type → Type} [Monad m] (scope : Scope)
    (call : List Token → m (Except ExprError UInt64)) (range : List Token) :
    m (Except ExprError UInt64) :=
  match range with
  | [] => pure (.error .badExpression)
  | [token] => pure (operand scope token)
  | _ =>
      if wrapped range then call range.tail.dropLast
      else
        match dominant? range with
        | none => pure (.error .badExpression)
        | some position =>
            match range[position]? with
            | none => pure (.error .badExpression)
            | some operator => evaluateSplitM scope call range position operator

/-- `evaluate` with its call of `evaluateRange` as a step of a monad. -/
def evaluateM {m : Type → Type} [Monad m] (call : List Token → m (Except ExprError UInt64))
    (source : String) : m (Except ExprError UInt64) :=
  match tokenize source with
  | .error reason => pure (.error reason)
  | .ok tokens => if Balanced tokens then call tokens else pure (.error .unbalancedParens)

theorem evaluateRangeM_long {m : Type → Type} [Monad m] (scope : Scope)
    (call : List Token → m (Except ExprError UInt64)) {range : List Token}
    (long : 2 ≤ range.length) :
    evaluateRangeM scope call range =
      if wrapped range then call range.tail.dropLast
      else
        match dominant? range with
        | none => pure (.error .badExpression)
        | some position =>
            match range[position]? with
            | none => pure (.error .badExpression)
            | some operator => evaluateSplitM scope call range position operator := by
  match range with
  | _ :: _ :: _ => rfl

theorem evaluateRangeM_id (scope : Scope) (range : List Token) :
    Id.run (evaluateRangeM scope (fun inner => pure (evaluateRange scope inner)) range) =
      evaluateRange scope range := by
  by_cases long : 2 ≤ range.length
  · rw [evaluateRange_long scope long, evaluateRangeM_long scope _ long]
    split
    · rfl
    · cases dominant? range with
      | none => rfl
      | some position =>
          dsimp only
          cases range[position]? with
          | none => rfl
          | some operator =>
              dsimp only [evaluateSplitM]
              split
              · split <;> rfl
              · cases evaluateRange scope (range.take position) <;> rfl
  · match range with
    | [] | [_] =>
        rw [evaluateRange]
        rfl
    | _ :: _ :: _ => simp at long

theorem evaluateM_id (scope : Scope) (source : String) :
    Id.run (evaluateM (fun range => pure (evaluateRange scope range)) source) =
      evaluate scope source := by
  rw [evaluateM, evaluate]
  cases tokenize source with
  | error _ => rfl
  | ok tokens =>
      change Id.run (if Balanced tokens then _ else _) = if Balanced tokens then _ else _
      split <;> rfl

/-- A call that adds its range to those called before. -/
def recordedCall (scope : Scope) (range : List Token) :
    StateM (List (List Token)) (Except ExprError UInt64) := do
  modify (· ++ [range])
  return evaluateRange scope range

/-- The ranges that are called, in order. -/
def recordedRanges (evaluation : StateM (List (List Token)) (Except ExprError UInt64)) :
    List (List Token) :=
  (Id.run (evaluation.run [])).2

/-- The calls that the evaluation of a text makes at its outermost. -/
def outerCalls (scope : Scope) (source : String) : List (List Token) :=
  recordedRanges (evaluateM (recordedCall scope) source)

/-- The calls that the evaluation of a range makes itself. -/
def innerCalls (scope : Scope) (range : List Token) : List (List Token) :=
  recordedRanges (evaluateRangeM scope (recordedCall scope) range)

/-- The evaluation of the text calls for the range, at its outermost or within another call. -/
inductive Visited (scope : Scope) (source : String) : List Token → Prop
  | outer {range : List Token} (called : range ∈ outerCalls scope source) :
      Visited scope source range
  | inner {outer range : List Token} (visited : Visited scope source outer)
      (called : range ∈ innerCalls scope outer) : Visited scope source range

theorem tokens_of_outerCall {scope : Scope} {source : String} {range : List Token}
    (called : range ∈ outerCalls scope source) : tokenize source = .ok range ∧ Balanced range := by
  unfold outerCalls evaluateM at called
  cases read : tokenize source with
  | error reason =>
      rw [read] at called
      cases called
  | ok tokens =>
      rw [read] at called
      dsimp only at called
      split at called
      · obtain rfl := List.mem_singleton.mp called
        exact ⟨rfl, ‹_›⟩
      · cases called

theorem side_of_call {scope : Scope} {outer inner : List Token} {position : Nat} {operator : Token}
    (called : inner ∈
      recordedRanges (evaluateSplitM scope (recordedCall scope) outer position operator)) :
    inner = outer.take position ∨ inner = outer.drop (position + 1) := by
  unfold evaluateSplitM at called
  split at called
  · split at called
    · cases called
    · rename_i first
      obtain rfl : position = 0 := not_not.mp first
      exact .inr ((List.mem_singleton.mp called).trans List.drop_one.symm)
  · cases left : evaluateRange scope (outer.take position) with
    | error reason =>
        have only : inner ∈ [outer.take position] := by
          simpa [recordedRanges, recordedCall, left] using called
        exact .inl (List.mem_singleton.mp only)
    | ok a =>
        have both : inner ∈ [outer.take position, outer.drop (position + 1)] := by
          simpa [recordedRanges, recordedCall, left] using called
        simpa using both

/-- A call is for what parentheses wrap, or for a side of the loosest operator. -/
theorem innerCall_cases {scope : Scope} {outer inner : List Token}
    (called : inner ∈ innerCalls scope outer) :
    (wrapped outer = true ∧ inner = outer.tail.dropLast) ∨
    ∃ position, dominant? outer = some position ∧
      (inner = outer.take position ∨ inner = outer.drop (position + 1)) := by
  by_cases long : 2 ≤ outer.length
  · rw [innerCalls, evaluateRangeM_long scope _ long] at called
    split at called
    · exact .inl ⟨‹_›, List.mem_singleton.mp called⟩
    · cases chosen : dominant? outer with
      | none =>
          rw [chosen] at called
          cases called
      | some position =>
          rw [chosen] at called
          dsimp only at called
          cases found : outer[position]? with
          | none =>
              rw [found] at called
              cases called
          | some operator =>
              rw [found] at called
              exact .inr ⟨position, rfl, side_of_call called⟩
  · match outer with
    | [] | [_] => cases called
    | _ :: _ :: _ => simp at long

/-- What a call passes on is a balanced part of its range, and shorter. -/
theorem Reads.of_innerCall {scope : Scope} {outer inner : List Token} (read : Reads 0 outer 0)
    (called : inner ∈ innerCalls scope outer) :
    Reads 0 inner 0 ∧ inner <:+: outer ∧ inner.length < outer.length := by
  rcases innerCall_cases called with ⟨wraps, rfl⟩ | ⟨position, chosen, side⟩
  · obtain ⟨first, inner, last, rfl, _, _, inside⟩ := group_of_wrapped wraps
    have peeled : (first :: inner ++ [last]).tail.dropLast = inner := by simp
    rw [peeled]
    refine ⟨inside, ⟨[first], [last], rfl⟩, ?_⟩
    simp only [List.length_append, List.length_cons]
    omega
  · obtain ⟨left, operator, right, _, rfl, rfl, _, leftRead, rightRead, _⟩ :=
      split_of_dominant? read chosen
    have shorter : left.length < (left ++ operator :: right).length ∧
        right.length < (left ++ operator :: right).length := by
      simp only [List.length_append, List.length_cons]
      omega
    rcases side with rfl | rfl
    · rw [List.take_left]
      exact ⟨leftRead, ⟨[], operator :: right, rfl⟩, shorter.1⟩
    · have behind : (left ++ operator :: right).drop (left.length + 1) = right := by simp
      rw [behind]
      exact ⟨rightRead, ⟨left ++ [operator], [], by simp⟩, shorter.2⟩

theorem Visited.balanced_part {scope : Scope} {source : String} {range : List Token}
    (visited : Visited scope source range) :
    Reads 0 range 0 ∧ ∃ tokens, tokenize source = .ok tokens ∧ range <:+: tokens := by
  -- The check is made of all tokens only; from there each call hands balance on.
  induction visited with
  | @outer range called =>
      obtain ⟨read, balanced⟩ := tokens_of_outerCall called
      exact ⟨balanced_iff_reads.mp balanced, range, read, List.infix_rfl⟩
  | inner _ called ih =>
      obtain ⟨outside, tokens, read, part⟩ := ih
      obtain ⟨inside, smaller, _⟩ := outside.of_innerCall called
      exact ⟨inside, tokens, read, smaller.trans part⟩

/-! Where a unary operator can stand. -/

/-- A unary operator behind another token stands behind an operator or an opening parenthesis. -/
def SignsPlaced (tokens : List Token) : Prop :=
  tokens.IsChain fun previous token =>
    token.kind.isUnary = true → AwaitsOperand (some previous.kind)

theorem awaitsOperand_of_fits {previous : Option TokenKind} {token : Token} {after : List Char}
    (fits : Fits previous token after) (unary : token.kind.isUnary = true) :
    AwaitsOperand previous := by
  have raw : token.kind.raw ∈ signs := by
    revert unary
    cases token.kind <;> decide
  have sign : String.ofList token.text.toList ∈ ["+", "-", "*"] := fits.lexical.sign_iff.mpr raw
  rw [String.ofList_toList] at sign
  exact (fits.unary_iff sign).mp unary

theorem signsPlaced_of_spells {previous : Option TokenKind} {tokens : List Token} {cs : List Char}
    (spelled : Spells Fits previous tokens cs) :
    (∀ token ∈ tokens.head?, token.kind.isUnary = true → AwaitsOperand previous) ∧
      SignsPlaced tokens := by
  induction spelled with
  | nil => exact ⟨nofun, .nil⟩
  | blank _ _ ih => exact ih
  | token fits _ ih =>
      refine ⟨?_, List.isChain_cons.mpr ih⟩
      rintro _ ⟨⟩
      exact awaitsOperand_of_fits fits

theorem Visited.signsPlaced {scope : Scope} {source : String} {range : List Token}
    (visited : Visited scope source range) : SignsPlaced range := by
  obtain ⟨_, _, read, before, after, rfl⟩ := visited.balanced_part
  obtain ⟨_, spelled⟩ := tokenize_eq_ok_iff.mp read
  have placed : SignsPlaced (before ++ range ++ after) := (signsPlaced_of_spells spelled).2
  exact placed.left_of_append.right_of_append

/-- Balanced tokens without an operator outside parentheses end an operand, if there are any. -/
theorem eq_nil_of_exposed {left right : List Token} {operator : Token} (read : Reads 0 left 0)
    (hidden : exposed 0 0 left = []) (placed : SignsPlaced (left ++ operator :: right))
    (unary : operator.kind.isUnary = true) : left = [] := by
  rcases left.eq_nil_or_concat with rfl | ⟨front, last, rfl⟩
  · rfl
  · rw [List.concat_eq_append] at *
    rw [SignsPlaced, List.append_assoc, List.singleton_append, List.isChain_split,
      List.isChain_cons_cons] at placed
    obtain ⟨depth, start, final⟩ := read.split
    -- An operator at the end would be outside parentheses, and a parenthesis would stay open.
    rcases placed.2.1 unary last.kind rfl with ranked | opening
    · obtain ⟨rank, ranked⟩ := Option.isSome_iff_exists.mp ranked
      have plain := plain_of_rank? ranked
      cases final with
      | opening kind => exact absurd kind plain.1
      | closing kind => exact absurd kind plain.2
      | plain _ final =>
          cases final
          rw [start.exposed_append, exposed_operator _ _ ranked] at hidden
          simp at hidden
    · cases final with
      | opening _ final => cases final
      | closing kind =>
          rw [opening] at kind
          cases kind
      | plain kind => exact absurd opening kind.1

/-- The position that a balanced range is split at has an operator, a unary one only at the start. -/
theorem operator_of_dominant? {tokens : List Token} {position : Nat} (read : Reads 0 tokens 0)
    (placed : SignsPlaced tokens) (chosen : dominant? tokens = some position) :
    ∃ operator, tokens[position]? = some operator ∧
      (operator.kind.isUnary = true → position = 0) := by
  have found : ∃ operator, tokens[position]? = some operator := by
    obtain ⟨left, operator, right, _, rfl, rfl, _⟩ := split_of_dominant? read chosen
    exact ⟨operator, by simp⟩
  obtain ⟨operator, found⟩ := found
  refine ⟨operator, found, fun unary => ?_⟩
  obtain ⟨left, right, rfl, rfl, inside, hidden⟩ := exposed_left_of_unary read chosen found unary
  rw [eq_nil_of_exposed inside hidden placed unary]
  rfl

/-- What holds wherever a range is evaluated: its parentheses are nested, no decrement of its readers
meets zero, its calls are for shorter ranges, and it is split at a unary operator only at its start. -/
structure Orderly (scope : Scope) (range : List Token) : Prop where
  nested : Nested range
  wrapped_exact : wrappedBy Nat.ppred range = some (wrapped range)
  dominant_exact : dominantBy Nat.ppred range = some (dominant? range)
  shorter : ∀ inner ∈ innerCalls scope range, inner.length < range.length
  unary_first : ∀ position, dominant? range = some position →
    ∃ operator, range[position]? = some operator ∧
      (operator.kind.isUnary = true → position = 0)

theorem Visited.orderly {scope : Scope} {source : String} {range : List Token}
    (visited : Visited scope source range) : Orderly scope range := by
  obtain ⟨read, _⟩ := visited.balanced_part
  exact {
    nested := balanced_iff_nested.mp (balanced_iff_reads.mpr read)
    wrapped_exact := wrappedBy_eq (read.closingBy_ppred 0)
    dominant_exact := dominantBy_eq (read.pickFromBy_ppred 0 none)
    shorter := fun _ called => (read.of_innerCall called).2.2
    unary_first := fun _ => operator_of_dominant? read visited.signsPlaced }

end HartScope.Expr

namespace HartScope

open HartScope.Expr

/-- Every range that the evaluation of a text visits is orderly.  With the calls as steps the evaluation
is the same, and with the decrement that stops at zero so are the readers of parentheses. -/
theorem evaluation_visits_orderly_ranges (scope : Scope) (source : String) :
    Id.run (evaluateM (fun range => pure (evaluateRange scope range)) source) =
      evaluate scope source ∧
    (∀ range, Id.run (evaluateRangeM scope (fun inner => pure (evaluateRange scope inner)) range) =
      evaluateRange scope range) ∧
    (∀ range, wrappedBy saturating range = some (wrapped range) ∧
      dominantBy saturating range = some (dominant? range)) ∧
    ∀ range, Visited scope source range → Orderly scope range := by
  refine ⟨evaluateM_id scope source, evaluateRangeM_id scope, fun range => ⟨?_, ?_⟩, ?_⟩
  · exact wrappedBy_eq (closingBy_saturating 0 0 range)
  · exact dominantBy_eq (pickFromBy_saturating 0 0 none range)
  · exact fun range visited => visited.orderly

/-- No name and no address has a value. -/
def emptyScope : Scope where
  register _ := none
  memory address := .error (.badAddress address)
  symbol _ := none

theorem signs_inside_product_visited :
    let range : List Token :=
      [⟨.neg, "-"⟩, ⟨.pos, "+"⟩, ⟨.lParen, "("⟩, ⟨.dec, "4"⟩, ⟨.rParen, ")"⟩]
    Visited emptyScope "3*(-+(4))" range ∧ dominant? range = some 0 ∧
      Orderly emptyScope range := by
  intro range
  have product : Visited emptyScope "3*(-+(4))" [⟨.dec, "3"⟩, ⟨.mul, "*"⟩, ⟨.lParen, "("⟩,
      ⟨.neg, "-"⟩, ⟨.pos, "+"⟩, ⟨.lParen, "("⟩, ⟨.dec, "4"⟩, ⟨.rParen, ")"⟩, ⟨.rParen, ")"⟩] :=
    .outer (by decide +kernel)
  have factor : Visited emptyScope "3*(-+(4))" (⟨.lParen, "("⟩ :: range ++ [⟨.rParen, ")"⟩]) :=
    .inner product (by decide +kernel)
  have visited : Visited emptyScope "3*(-+(4))" range := .inner factor (by decide +kernel)
  exact ⟨visited, by decide, (evaluation_visits_orderly_ranges _ _).2.2.2 range visited⟩

end HartScope
