import HartScope.Proofs.Expr.Exposed
import Mathlib.Data.List.Induction

/-!
The operator that a range is split at.  It is the loosest one outside parentheses; among equals a
binary one has none of its rank to its right, which is association to the left.
-/

namespace HartScope.Expr

namespace Pick

/-- `pick` stays the choice when `other` comes to its right. -/
def Keeps (pick other : Pick) : Prop :=
  pick.rank ≤ other.rank ∧ (other.rank = pick.rank → other.rank = unaryRank)

theorem better_of_keeps {pick other : Pick} (keeps : pick.Keeps other) :
    better (some pick) other = some pick := by
  obtain ⟨loose, equal⟩ := keeps
  simp only [better, prefer, Bool.or_eq_true, decide_eq_true_eq, Bool.and_eq_true, beq_iff_eq,
    Bool.not_eq_true', beq_eq_false_iff_ne]
  rw [if_neg]
  rintro (looser | ⟨same, binary⟩)
  · omega
  · exact binary (equal same)

theorem better_of_not_keeps {pick other : Pick} (yields : ¬ pick.Keeps other) :
    better (some pick) other = some other ∧ other.rank ≤ pick.rank := by
  have looser : other.rank < pick.rank ∨ other.rank = pick.rank ∧ other.rank ≠ unaryRank := by
    unfold Keeps at yields
    omega
  refine ⟨?_, by omega⟩
  simp only [better, prefer, Bool.or_eq_true, decide_eq_true_eq, Bool.and_eq_true, beq_iff_eq,
    Bool.not_eq_true', beq_eq_false_iff_ne]
  rw [if_pos looser]

end Pick

theorem foldl_better_keeps {pick : Pick} {picks : List Pick}
    (keeps : ∀ other ∈ picks, pick.Keeps other) :
    picks.foldl Pick.better (some pick) = some pick := by
  induction picks with
  | nil => rfl
  | cons other rest ih =>
      rw [List.foldl_cons, Pick.better_of_keeps (keeps other (by simp))]
      exact ih fun later member => keeps later (by simp [member])

theorem foldl_better_none {picks : List Pick} (chosen : picks.foldl Pick.better none = none) :
    picks = [] := by
  induction picks using List.reverseRecOn with
  | nil => rfl
  | append_singleton earlier last ih =>
      rw [List.foldl_append, List.foldl_cons, List.foldl_nil] at chosen
      cases best : earlier.foldl Pick.better none with
      | none => simp [best, Pick.better, Pick.prefer] at chosen
      | some pick =>
          rw [best] at chosen
          by_cases keeps : pick.Keeps last
          · simp [Pick.better_of_keeps keeps] at chosen
          · simp [(Pick.better_of_not_keeps keeps).1] at chosen

theorem foldl_better_some {picks : List Pick} {pick : Pick}
    (chosen : picks.foldl Pick.better none = some pick) :
    ∃ before behind, picks = before ++ pick :: behind ∧
      (∀ other ∈ before, pick.rank ≤ other.rank) ∧ ∀ other ∈ behind, pick.Keeps other := by
  induction picks using List.reverseRecOn generalizing pick with
  | nil => simp at chosen
  | append_singleton earlier last ih =>
      rw [List.foldl_append, List.foldl_cons, List.foldl_nil] at chosen
      cases best : earlier.foldl Pick.better none with
      | none =>
          have only := foldl_better_none best
          subst only
          simp only [List.foldl_nil, Pick.better, Pick.prefer, Option.some.injEq] at chosen
          subst chosen
          exact ⟨[], [], rfl, by simp, by simp⟩
      | some held =>
          obtain ⟨before, behind, rfl, left, right⟩ := ih best
          rw [best] at chosen
          by_cases keeps : held.Keeps last
          · rw [Pick.better_of_keeps keeps, Option.some.injEq] at chosen
            subst chosen
            refine ⟨before, behind ++ [last], by simp, left, ?_⟩
            intro other member
            rcases List.mem_append.mp member with earlier | final
            · exact right other earlier
            · exact List.mem_singleton.mp final ▸ keeps
          · obtain ⟨taken, loose⟩ := Pick.better_of_not_keeps keeps
            rw [taken, Option.some.injEq] at chosen
            subst chosen
            refine ⟨before ++ held :: behind, [], rfl, ?_, by simp⟩
            intro other member
            rcases List.mem_append.mp member with earlier | later
            · exact Nat.le_trans loose (left other earlier)
            · rcases List.mem_cons.mp later with rfl | later
              · exact loose
              · exact Nat.le_trans loose (right other later).1

/-- A choice that everything before it yields to and everything behind it leaves. -/
theorem foldl_better_eq {pick : Pick} {before behind : List Pick}
    (left : ∀ other ∈ before, ¬ other.Keeps pick) (right : ∀ other ∈ behind, pick.Keeps other) :
    (before ++ pick :: behind).foldl Pick.better none = some pick := by
  have taken : Pick.better (before.foldl Pick.better none) pick = some pick := by
    cases best : before.foldl Pick.better none with
    | none => rfl
    | some held =>
        obtain ⟨_, _, rfl, _, _⟩ := foldl_better_some best
        exact (Pick.better_of_not_keeps (left held (by simp))).1
  rw [List.foldl_append, List.foldl_cons, taken]
  exact foldl_better_keeps right

/-- No operator outside parentheses binds more loosely than `rank`. -/
def Tight (rank : Nat) (tokens : List Token) : Prop :=
  ∀ pick ∈ exposed 0 0 tokens, rank ≤ pick.rank

theorem tight_iff {rank : Nat} {tokens : List Token} (position : Nat) :
    Tight rank tokens ↔ ∀ pick ∈ exposed 0 position tokens, rank ≤ pick.rank := by
  have ranks := exposed_ranks 0 0 position tokens
  have transfer (picks : List Pick) :
      (∀ pick ∈ picks, rank ≤ pick.rank) ↔ ∀ r ∈ picks.map Pick.rank, rank ≤ r := by
    simp
  rw [Tight, transfer, transfer, ranks]

theorem Tight.mono {loose rank : Nat} {tokens : List Token} (tight : Tight rank tokens)
    (less : loose ≤ rank) : Tight loose tokens :=
  fun pick member => Nat.le_trans less (tight pick member)

theorem dominant?_eq_foldl (tokens : List Token) :
    dominant? tokens =
      ((exposed 0 0 tokens).foldl Pick.better none).map Pick.position := by
  rw [dominant?, pickFrom_eq_foldl]

/-- The facts about the operator that a balanced range is split at. -/
theorem split_of_dominant? {tokens : List Token} {position : Nat} (read : Reads 0 tokens 0)
    (chosen : dominant? tokens = some position) :
    ∃ left token right rank, tokens = left ++ token :: right ∧ position = left.length ∧
      token.kind.rank? = some rank ∧ Reads 0 left 0 ∧ Reads 0 right 0 ∧ Tight rank left ∧
      Tight rank right ∧ (rank < unaryRank → Tight (rank + 1) right) := by
  rw [dominant?_eq_foldl, Option.map_eq_some_iff] at chosen
  obtain ⟨pick, best, rfl⟩ := chosen
  obtain ⟨before, behind, found, looser, keeps⟩ := foldl_better_some best
  cases read.cut found with
  | @mk left right token place inside ranked =>
      rw [Nat.zero_add] at place
      have plain := TokenKind.plain_of_rank? ranked
      refine ⟨left, token, right, pick.rank, rfl, place, ranked, inside, ?_, looser, ?_, ?_⟩
      · cases inside.rest read with
        | plain _ rest => exact rest
        | opening kind => exact absurd kind plain.1
      · exact (tight_iff (pick.position + 1)).mpr fun other member => (keeps other member).1
      · intro binary
        refine (tight_iff (pick.position + 1)).mpr fun other member => ?_
        have kept := keeps other member
        unfold Pick.Keeps at kept
        omega

theorem dominant?_binary {left right : List Token} {token : Token} {rank : Nat}
    (read : Reads 0 left 0) (ranked : token.kind.rank? = some rank) (binary : rank < unaryRank)
    (leftTight : Tight rank left) (rightTight : Tight (rank + 1) right) :
    dominant? (left ++ token :: right) = some left.length := by
  have best : (exposed 0 0 (left ++ token :: right)).foldl Pick.better none =
      some ⟨0 + left.length, rank⟩ := by
    rw [read.exposed_append, exposed_operator _ _ ranked]
    apply foldl_better_eq
    · intro other member keeps
      have loose := leftTight other member
      simp only [Pick.Keeps] at keeps
      omega
    · intro other member
      have tight := (tight_iff _).mp rightTight other member
      simp only [Pick.Keeps]
      omega
  rw [dominant?_eq_foldl, best, Option.map_some, Nat.zero_add]

theorem exposed_rank_le {depth position : Nat} {tokens : List Token} {pick : Pick}
    (member : pick ∈ exposed depth position tokens) : pick.rank ≤ unaryRank := by
  induction tokens generalizing depth position with
  | nil => simp [exposed] at member
  | cons token rest ih =>
      rcases token.kind.paren_cases with opening | closing | plain
      · exact ih (exposed_lParen _ _ _ opening ▸ member)
      · exact ih (exposed_rParen _ _ _ closing ▸ member)
      · cases depth with
        | succ depth => exact ih (exposed_inner _ _ _ plain ▸ member)
        | zero =>
            cases ranked : token.kind.rank? with
            | none => exact ih (exposed_operand _ _ _ plain ranked ▸ member)
            | some rank =>
                rw [exposed_operator _ _ ranked] at member
                rcases List.mem_cons.mp member with rfl | later
                · exact rank?_le ranked
                · exact ih later

theorem dominant?_unary {rest : List Token} {token : Token}
    (ranked : token.kind.rank? = some unaryRank) (tight : Tight unaryRank rest) :
    dominant? (token :: rest) = some 0 := by
  have best : (exposed 0 0 (token :: rest)).foldl Pick.better none = some ⟨0, unaryRank⟩ := by
    rw [exposed_operator _ _ ranked]
    apply foldl_better_keeps
    intro other member
    have low := (tight_iff _).mp tight other member
    have high := exposed_rank_le member
    exact ⟨low, fun _ => Nat.le_antisymm high low⟩
  rw [dominant?_eq_foldl, best, Option.map_some]

/-- Where nothing is looser than a unary operator, the first operator is chosen. -/
theorem foldl_better_unary {pick : Pick} {picks : List Pick}
    (chosen : picks.foldl Pick.better none = some pick) (unary : pick.rank = unaryRank)
    (bound : ∀ other ∈ picks, other.rank ≤ unaryRank) : ∃ behind, picks = pick :: behind := by
  obtain ⟨before, behind, rfl, looser, keeps⟩ := foldl_better_some chosen
  cases before with
  | nil => exact ⟨behind, rfl⟩
  | cons first others =>
      have same : ∀ other ∈ first :: others ++ pick :: behind, other.rank = unaryRank := by
        intro other member
        refine Nat.le_antisymm (bound other member) ?_
        rw [← unary]
        rcases List.mem_append.mp member with earlier | later
        · exact looser other earlier
        · rcases List.mem_cons.mp later with rfl | later
          · exact Nat.le_refl _
          · exact (keeps other later).1
      rw [List.cons_append, List.forall_mem_cons] at same
      have kept : (others ++ pick :: behind).foldl Pick.better (some first) = some first := by
        refine foldl_better_keeps fun other member => ?_
        have equal := same.2 other member
        exact ⟨by omega, fun _ => equal⟩
      obtain rfl : first = pick := Option.some.inj (kept.symm.trans chosen)
      exact ⟨_, List.cons_append⟩

/-- A unary operator that a range is split at has no operator outside parentheses on its left. -/
theorem exposed_left_of_unary {tokens : List Token} {position : Nat} {operator : Token}
    (read : Reads 0 tokens 0) (chosen : dominant? tokens = some position)
    (found : tokens[position]? = some operator) (unary : operator.kind.isUnary = true) :
    ∃ left right, tokens = left ++ operator :: right ∧ position = left.length ∧ Reads 0 left 0 ∧
      exposed 0 0 left = [] := by
  rw [dominant?_eq_foldl, Option.map_eq_some_iff] at chosen
  obtain ⟨pick, best, rfl⟩ := chosen
  -- Only a cut tells the rank of the choice, and only with its rank is it known to come first.
  have tightest : pick.rank = unaryRank := by
    obtain ⟨before, behind, listed, _⟩ := foldl_better_some best
    cases read.cut listed with
    | @mk left right token place _ ranked =>
        rw [place, Nat.zero_add] at found
        obtain rfl : token = operator := by simpa using found
        simpa [isUnary_of_rank? ranked] using unary
  obtain ⟨behind, listed⟩ := foldl_better_unary best tightest fun _ => exposed_rank_le
  have cut : Cut 0 0 pick tokens [] behind := read.cut listed
  generalize [] = before at cut
  cases cut with
  | @mk left right token place inside _ =>
      rw [place, Nat.zero_add] at found ⊢
      obtain rfl : token = operator := by simpa using found
      exact ⟨left, right, rfl, rfl, inside, rfl⟩

end HartScope.Expr
