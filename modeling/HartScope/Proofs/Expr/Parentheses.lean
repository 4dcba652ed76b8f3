import HartScope.Expr.Evaluate
import Mathlib.Data.List.Induction

/-!
Parentheses in token ranges.  `Reads` follows a range from the left and keeps the number of open
parentheses; the evaluator's readers take one step for each of its cases.  A range is wrapped
exactly when it is a balanced one between two parentheses, and balanced when no start of it closes more
than it opens and the whole closes all of them.
-/

namespace HartScope

/-- Neither an opening nor a closing parenthesis. -/
def TokenKind.Plain (kind : TokenKind) : Prop :=
  kind ≠ .lParen ∧ kind ≠ .rParen

theorem TokenKind.plain_of_rank? {kind : TokenKind} {rank : Nat}
    (ranked : kind.rank? = some rank) : kind.Plain := by
  constructor <;> rintro rfl <;> contradiction

theorem TokenKind.paren_cases (kind : TokenKind) :
    kind = .lParen ∨ kind = .rParen ∨ kind.Plain := by
  cases kind <;> simp [Plain]

namespace Expr

/-- Reading `tokens` with `depth` parentheses open leaves `after` of them open, and none closes that
is not open. -/
inductive Reads : (depth : Nat) → (tokens : List Token) → (after : Nat) → Prop
  | nil {depth : Nat} : Reads depth [] depth
  | opening {depth after : Nat} {token : Token} {rest : List Token} (kind : token.kind = .lParen)
      (read : Reads (depth + 1) rest after) : Reads depth (token :: rest) after
  | closing {depth after : Nat} {token : Token} {rest : List Token} (kind : token.kind = .rParen)
      (read : Reads depth rest after) : Reads (depth + 1) (token :: rest) after
  | plain {depth after : Nat} {token : Token} {rest : List Token} (kind : token.kind.Plain)
      (read : Reads depth rest after) : Reads depth (token :: rest) after

section Equations

variable {token : Token} (depth position : Nat) (rest : List Token)

@[simp] theorem depthAfter?_nil : depthAfter? depth [] = some depth := by
  cases depth <;> rfl

theorem depthAfter?_lParen (kind : token.kind = .lParen) :
    depthAfter? depth (token :: rest) = depthAfter? (depth + 1) rest := by
  cases depth <;> simp [depthAfter?, kind]

theorem depthAfter?_rParen (kind : token.kind = .rParen) :
    depthAfter? (depth + 1) (token :: rest) = depthAfter? depth rest := by
  simp [depthAfter?, kind]

theorem depthAfter?_plain (kind : token.kind.Plain) :
    depthAfter? depth (token :: rest) = depthAfter? depth rest := by
  obtain ⟨notOpening, notClosing⟩ := kind
  cases depth <;> cases shape : token.kind <;> simp_all [depthAfter?]

theorem closing?_lParen (kind : token.kind = .lParen) :
    closing? depth position (token :: rest) = closing? (depth + 1) (position + 1) rest := by
  simp [closing?, kind]

theorem closing?_rParen_one (kind : token.kind = .rParen) :
    closing? 1 position (token :: rest) = some position := by
  simp [closing?, kind]

theorem closing?_rParen_succ (kind : token.kind = .rParen) :
    closing? (depth + 2) position (token :: rest) =
      closing? (depth + 1) (position + 1) rest := by
  simp [closing?, kind]

theorem closing?_plain (kind : token.kind.Plain) :
    closing? depth position (token :: rest) = closing? depth (position + 1) rest := by
  obtain ⟨notOpening, notClosing⟩ := kind
  cases shape : token.kind <;> simp_all [closing?]

end Equations

theorem Reads.depthAfter? {depth after : Nat} {tokens : List Token}
    (read : Reads depth tokens after) : depthAfter? depth tokens = some after := by
  induction read with
  | nil => exact depthAfter?_nil _
  | opening kind _ ih => rw [depthAfter?_lParen _ _ kind, ih]
  | closing kind _ ih => rw [depthAfter?_rParen _ _ kind, ih]
  | plain kind _ ih => rw [depthAfter?_plain _ _ kind, ih]

theorem reads_of_depthAfter? {depth after : Nat} {tokens : List Token}
    (read : depthAfter? depth tokens = some after) : Reads depth tokens after := by
  induction tokens generalizing depth with
  | nil =>
      rw [depthAfter?_nil, Option.some.injEq] at read
      subst read
      exact .nil
  | cons token rest ih =>
      rcases token.kind.paren_cases with opening | closing | plain
      · rw [depthAfter?_lParen _ _ opening] at read
        exact .opening opening (ih read)
      · cases depth with
        | zero => simp [Expr.depthAfter?, closing] at read
        | succ depth =>
            rw [depthAfter?_rParen _ _ closing] at read
            exact .closing closing (ih read)
      · rw [depthAfter?_plain _ _ plain] at read
        exact .plain plain (ih read)

theorem balanced_iff_reads {tokens : List Token} : Balanced tokens ↔ Reads 0 tokens 0 :=
  ⟨reads_of_depthAfter?, Reads.depthAfter?⟩

namespace Reads

variable {depth middle after : Nat} {tokens left right : List Token}

theorem append (first : Reads depth left middle) (second : Reads middle right after) :
    Reads depth (left ++ right) after := by
  induction first with
  | nil => exact second
  | opening kind _ ih => exact .opening kind (ih second)
  | closing kind _ ih => exact .closing kind (ih second)
  | plain kind _ ih => exact .plain kind (ih second)

/-- What can be read at one depth can be read deeper inside. -/
theorem deepen (read : Reads depth tokens after) (outer : Nat) :
    Reads (depth + outer) tokens (after + outer) := by
  induction read with
  | nil => exact .nil
  | opening kind _ ih => exact .opening kind (Nat.add_right_comm .. ▸ ih)
  | closing kind _ ih => exact Nat.add_right_comm .. ▸ .closing kind ih
  | plain kind _ ih => exact .plain kind ih

/-- The rest of a range is read from where a start of it has led. -/
theorem rest (first : Reads depth left middle) (whole : Reads depth (left ++ right) after) :
    Reads middle right after := by
  apply reads_of_depthAfter?
  induction first with
  | nil => exact whole.depthAfter?
  | opening kind _ ih =>
      cases whole with
      | opening _ whole => exact ih whole
      | closing other | plain other => simp_all [TokenKind.Plain]
  | closing kind _ ih =>
      cases whole with
      | closing _ whole => exact ih whole
      | opening other | plain other => simp_all [TokenKind.Plain]
  | plain kind _ ih =>
      cases whole with
      | plain _ whole => exact ih whole
      | opening other | closing other => simp_all [TokenKind.Plain]

theorem group {first last : Token} (opening : first.kind = .lParen) (closing : last.kind = .rParen)
    (inside : Reads 0 tokens 0) : Reads 0 (first :: tokens ++ [last]) 0 :=
  .opening opening ((inside.deepen 1).append (.closing closing .nil))

/-- Inside parentheses, what closes only its own parentheses is passed over. -/
theorem closing?_append (read : Reads depth left after) (position : Nat) :
    closing? (depth + 1) position (left ++ right) =
      closing? (after + 1) (position + left.length) right := by
  induction read generalizing position with
  | nil => rfl
  | opening kind _ ih =>
      rw [List.cons_append, closing?_lParen _ _ _ kind, ih, List.length_cons, Nat.add_right_comm]
      rfl
  | closing kind _ ih =>
      rw [List.cons_append, closing?_rParen_succ _ _ _ kind, ih, List.length_cons,
        Nat.add_right_comm]
      rfl
  | plain kind _ ih =>
      rw [List.cons_append, closing?_plain _ _ _ kind, ih, List.length_cons, Nat.add_right_comm]
      rfl

/-- A range that closes the parentheses that are open before it contains the place. -/
theorem closing?_lt (read : Reads depth left 0) (enclosed : 0 < depth) (position : Nat)
    (right : List Token) :
    ∃ place, closing? depth position (left ++ right) = some place ∧
      place < position + left.length := by
  generalize final : 0 = after at read
  induction read generalizing position with
  | nil => omega
  | opening kind _ ih =>
      obtain ⟨place, found, early⟩ := ih (Nat.succ_pos _) (position + 1) final
      refine ⟨place, (closing?_lParen _ _ _ kind).trans found, ?_⟩
      simp only [List.length_cons]
      omega
  | @closing depth _ _ _ kind _ ih =>
      cases depth with
      | zero =>
          refine ⟨position, closing?_rParen_one _ _ kind, ?_⟩
          simp only [List.length_cons]
          omega
      | succ depth =>
          obtain ⟨place, found, early⟩ := ih (Nat.succ_pos _) (position + 1) final
          refine ⟨place, (closing?_rParen_succ _ _ _ kind).trans found, ?_⟩
          simp only [List.length_cons]
          omega
  | plain kind _ ih =>
      obtain ⟨place, found, early⟩ := ih enclosed (position + 1) final
      refine ⟨place, (closing?_plain _ _ _ kind).trans found, ?_⟩
      simp only [List.length_cons]
      omega

end Reads

/-- When the parentheses that are open close only at the last token, everything before it is read
without closing them. -/
theorem reads_of_closing? {depth position : Nat} {inner : List Token} {last : Token}
    (found : closing? (depth + 1) position (inner ++ [last]) = some (position + inner.length)) :
    Reads depth inner 0 := by
  induction inner generalizing depth position with
  | nil =>
      rcases last.kind.paren_cases with opening | closing | plain
      · simp [closing?, opening] at found
      · cases depth with
        | zero => exact .nil
        | succ depth => simp [closing?, closing] at found
      · rw [List.nil_append, closing?_plain _ _ _ plain] at found
        simp [closing?] at found
  | cons token inner ih =>
      rw [List.length_cons, Nat.add_comm inner.length, ← Nat.add_assoc, List.cons_append] at found
      rcases token.kind.paren_cases with opening | closing | plain
      · rw [closing?_lParen _ _ _ opening] at found
        exact .opening opening (ih found)
      · cases depth with
        | zero =>
            rw [closing?_rParen_one _ _ closing, Option.some.injEq] at found
            omega
        | succ depth =>
            rw [closing?_rParen_succ _ _ _ closing] at found
            exact .closing closing (ih found)
      · rw [closing?_plain _ _ _ plain] at found
        exact .plain plain (ih found)

theorem wrapped_iff {first last : Token} {inner : List Token} :
    wrapped (first :: inner ++ [last]) = true ↔
      first.kind = .lParen ∧ last.kind = .rParen ∧
        closing? 0 0 (first :: inner ++ [last]) = some (inner.length + 1) := by
  have final : (first :: inner ++ [last]).getLast? = some last :=
    List.getLast?_concat (l := first :: inner)
  simp only [wrapped, final, Bool.and_eq_true, beq_iff_eq]
  simp [and_assoc]

theorem wrapped_group {first last : Token} {inner : List Token} (opening : first.kind = .lParen)
    (closing : last.kind = .rParen) (inside : Reads 0 inner 0) :
    wrapped (first :: inner ++ [last]) = true := by
  refine wrapped_iff.mpr ⟨opening, closing, ?_⟩
  rw [List.cons_append, closing?_lParen _ _ _ opening, inside.closing?_append,
    closing?_rParen_one _ _ closing, Nat.zero_add, Nat.add_comm]

theorem group_of_wrapped {tokens : List Token} (wraps : wrapped tokens = true) :
    ∃ first inner last, tokens = first :: inner ++ [last] ∧ first.kind = .lParen ∧
      last.kind = .rParen ∧ Reads 0 inner 0 := by
  cases tokens with
  | nil => simp [wrapped] at wraps
  | cons first rest =>
      rcases rest.eq_nil_or_concat with rfl | ⟨inner, last, rfl⟩
      · simp [wrapped] at wraps
      · rw [List.concat_eq_append, ← List.cons_append] at wraps ⊢
        obtain ⟨opening, closing, place⟩ := wrapped_iff.mp wraps
        refine ⟨first, inner, last, rfl, opening, closing, ?_⟩
        rw [List.cons_append, closing?_lParen _ _ _ opening, Nat.add_comm inner.length] at place
        exact reads_of_closing? place

/-- A balanced range that goes on behind a balanced start is not wrapped: a parenthesis at its start
closes before that start ends. -/
theorem not_wrapped_append {token : Token} {before after : List Token} (nonempty : before ≠ [])
    (read : Reads 0 before 0) : wrapped (before ++ token :: after) = false := by
  cases read with
  | nil => contradiction
  | @opening _ _ first rest kind inside =>
      obtain ⟨place, found, early⟩ := inside.closing?_lt Nat.one_pos 1 (token :: after)
      have inside : closing? 0 0 (first :: rest ++ token :: after) = some place :=
        (closing?_lParen _ _ _ kind).trans found
      have distinct : place ≠ (first :: rest ++ token :: after).length - 1 := by
        simp only [List.length_append, List.length_cons]
        omega
      simp only [wrapped, inside, Option.some_beq_some, beq_eq_false_iff_ne.mpr distinct,
        Bool.and_false]
  | plain kind _ => simp [wrapped, kind.1]

theorem not_wrapped_cons {token : Token} {rest : List Token} (plain : token.kind.Plain) :
    wrapped (token :: rest) = false := by
  simp [wrapped, plain.1]

/-! The same in numbers of parentheses. -/

def opened (tokens : List Token) : Nat :=
  tokens.countP (·.kind == .lParen)

def closed (tokens : List Token) : Nat :=
  tokens.countP (·.kind == .rParen)

/-- No start of the range closes more parentheses than it opens, and the whole closes all of them. -/
structure Nested (tokens : List Token) : Prop where
  start : ∀ left, left <+: tokens → closed left ≤ opened left
  whole : closed tokens = opened tokens

namespace Reads

variable {depth after : Nat} {tokens left right : List Token}

theorem counts (read : Reads depth tokens after) :
    after + closed tokens = depth + opened tokens := by
  induction read with
  | nil => rfl
  | @opening _ _ token rest kind _ ih =>
      have more : opened (token :: rest) = opened rest + 1 := by simp [opened, kind]
      have same : closed (token :: rest) = closed rest := by simp [closed, kind]
      omega
  | @closing _ _ token rest kind _ ih =>
      have same : opened (token :: rest) = opened rest := by simp [opened, kind]
      have more : closed (token :: rest) = closed rest + 1 := by simp [closed, kind]
      omega
  | plain kind _ ih => simpa [closed, opened, kind.1, kind.2] using ih

/-- A start of a range is read up to some depth, and the rest from there. -/
theorem split (read : Reads depth (left ++ right) after) :
    ∃ middle, Reads depth left middle ∧ Reads middle right after := by
  induction left generalizing depth with
  | nil => exact ⟨depth, .nil, read⟩
  | cons token left ih =>
      cases read with
      | opening kind read =>
          obtain ⟨middle, first, second⟩ := ih read
          exact ⟨middle, .opening kind first, second⟩
      | closing kind read =>
          obtain ⟨middle, first, second⟩ := ih read
          exact ⟨middle, .closing kind first, second⟩
      | plain kind read =>
          obtain ⟨middle, first, second⟩ := ih read
          exact ⟨middle, .plain kind first, second⟩

end Reads

/-- A range is read as far as its starts close no more than is open. -/
theorem exists_reads {depth : Nat} {tokens : List Token}
    (start : ∀ left, left <+: tokens → closed left ≤ depth + opened left) :
    ∃ after, Reads depth tokens after := by
  induction tokens using List.reverseRecOn with
  | nil => exact ⟨depth, .nil⟩
  | append_singleton tokens last ih =>
      obtain ⟨middle, read⟩ :=
        ih fun left within => start left (within.trans (List.prefix_append ..))
      rcases last.kind.paren_cases with opening | closing | plain
      · exact ⟨middle + 1, read.append (.opening opening .nil)⟩
      · have counted := read.counts
        have room : closed tokens + 1 ≤ depth + opened tokens := by
          simpa [closed, opened, closing] using start _ (List.prefix_refl _)
        obtain ⟨below, rfl⟩ := Nat.exists_eq_succ_of_ne_zero (by omega : middle ≠ 0)
        exact ⟨below, read.append (.closing closing .nil)⟩
      · exact ⟨middle, read.append (.plain plain .nil)⟩

theorem balanced_iff_nested {tokens : List Token} : Balanced tokens ↔ Nested tokens := by
  rw [balanced_iff_reads]
  constructor
  · intro read
    have whole := read.counts
    refine ⟨?_, by omega⟩
    rintro left ⟨right, rfl⟩
    obtain ⟨middle, first, _⟩ := read.split
    have counted := first.counts
    omega
  · rintro ⟨start, whole⟩
    obtain ⟨after, read⟩ : ∃ after, Reads 0 tokens after := exists_reads (by simpa using start)
    have counted := read.counts
    obtain rfl : after = 0 := by omega
    exact read

end Expr

end HartScope
