import HartScope.Proofs.Expr.Parentheses
import Mathlib.Data.Nat.PSub

/-!
The decrements of the readers of parentheses.  A reader lowers the number of open parentheses at each
closing one, by a subtraction that stops at zero.  Here the readers have their decrement as a parameter
that may fail.  With the subtraction that stops at zero they are the evaluator's own; with `Nat.ppred`,
which fails at zero, they do the same on every balanced range, so nothing is ever stopped there.
-/

namespace HartScope.Expr

/-- The decrement that stops at zero. -/
def saturating (depth : Nat) : Option Nat :=
  some (depth - 1)

/-- `closing?` with the decrement `lower`. -/
def closingBy (lower : Nat → Option Nat) :
    (depth position : Nat) → List Token → Option (Option Nat)
  | _, _, [] => some none
  | depth, position, token :: rest =>
      match token.kind with
      | .lParen => closingBy lower (depth + 1) (position + 1) rest
      | .rParen =>
          (lower depth).bind fun depth =>
            if depth = 0 then some (some position) else closingBy lower depth (position + 1) rest
      | _ => closingBy lower depth (position + 1) rest

/-- `wrapped` with the decrement `lower`. -/
def wrappedBy (lower : Nat → Option Nat) (tokens : List Token) : Option Bool :=
  if 2 ≤ tokens.length && tokens.head?.any (·.kind == .lParen) &&
      tokens.getLast?.any (·.kind == .rParen) then
    (closingBy lower 0 0 tokens).map (· == some (tokens.length - 1))
  else some false

/-- The choice behind an operator, which can be taken outside parentheses, or behind an operand. -/
def Pick.offered (depth position : Nat) (best : Option Pick) (kind : TokenKind) : Option Pick :=
  match depth, kind.rank? with
  | 0, some rank => Pick.prefer best position rank kind.isUnary
  | _, _ => best

/-- `pickFrom` with the decrement `lower`. -/
def pickFromBy (lower : Nat → Option Nat) :
    (depth position : Nat) → (best : Option Pick) → List Token → Option (Option Pick)
  | _, _, best, [] => some best
  | depth, position, best, token :: rest =>
      match token.kind with
      | .lParen => pickFromBy lower (depth + 1) (position + 1) best rest
      | .rParen =>
          (lower depth).bind fun depth => pickFromBy lower depth (position + 1) best rest
      | kind => pickFromBy lower depth (position + 1) (Pick.offered depth position best kind) rest

/-- `dominant?` with the decrement `lower`. -/
def dominantBy (lower : Nat → Option Nat) (tokens : List Token) : Option (Option Nat) :=
  (pickFromBy lower 0 0 none tokens).map (·.map Pick.position)

section Equations

variable {token : Token} (lower : Nat → Option Nat) (depth position : Nat) (best : Option Pick)
  (rest : List Token)

theorem closingBy_plain (kind : token.kind.Plain) :
    closingBy lower depth position (token :: rest) = closingBy lower depth (position + 1) rest := by
  obtain ⟨notOpening, notClosing⟩ := kind
  cases shape : token.kind <;> simp_all [closingBy]

theorem pickFrom_plain (kind : token.kind.Plain) :
    pickFrom depth position best (token :: rest) =
      pickFrom depth (position + 1) (Pick.offered depth position best token.kind) rest := by
  obtain ⟨notOpening, notClosing⟩ := kind
  cases shape : token.kind <;> cases depth <;>
    simp_all [pickFrom, Pick.offered, TokenKind.rank?]

theorem pickFromBy_plain (kind : token.kind.Plain) :
    pickFromBy lower depth position best (token :: rest) =
      pickFromBy lower depth (position + 1) (Pick.offered depth position best token.kind) rest := by
  obtain ⟨notOpening, notClosing⟩ := kind
  cases shape : token.kind <;> simp_all [pickFromBy]

end Equations

theorem closingBy_saturating (depth position : Nat) (tokens : List Token) :
    closingBy saturating depth position tokens = some (closing? depth position tokens) := by
  induction tokens generalizing depth position with
  | nil => rfl
  | cons token rest ih =>
      rcases token.kind.paren_cases with opening | closing | plain
      · simp [closingBy, closing?, opening, ih]
      · simp only [closingBy, closing?, closing, saturating, Option.bind_some, ih]
        split <;> rfl
      · rw [closingBy_plain _ _ _ _ plain, closing?_plain _ _ _ plain, ih]

theorem pickFromBy_saturating (depth position : Nat) (best : Option Pick) (tokens : List Token) :
    pickFromBy saturating depth position best tokens =
      some (pickFrom depth position best tokens) := by
  induction tokens generalizing depth position best with
  | nil => rfl
  | cons token rest ih =>
      rcases token.kind.paren_cases with opening | closing | plain
      · simp [pickFromBy, pickFrom, opening, ih]
      · simp [pickFromBy, pickFrom, closing, saturating, ih]
      · rw [pickFromBy_plain _ _ _ _ _ plain, pickFrom_plain _ _ _ _ plain, ih]

namespace Reads

variable {depth after : Nat} {tokens : List Token}

theorem closingBy_ppred (read : Reads depth tokens after) (position : Nat) :
    closingBy Nat.ppred depth position tokens = some (closing? depth position tokens) := by
  induction read generalizing position with
  | nil => rfl
  | opening kind _ ih => simp [closingBy, closing?, kind, ih]
  | closing kind _ ih =>
      simp only [closingBy, closing?, kind, Nat.ppred_succ, Option.bind_some, Nat.add_sub_cancel, ih]
      split <;> rfl
  | plain kind _ ih => rw [closingBy_plain _ _ _ _ kind, closing?_plain _ _ _ kind, ih]

theorem pickFromBy_ppred (read : Reads depth tokens after) (position : Nat) (best : Option Pick) :
    pickFromBy Nat.ppred depth position best tokens =
      some (pickFrom depth position best tokens) := by
  induction read generalizing position best with
  | nil => rfl
  | opening kind _ ih => simp [pickFromBy, pickFrom, kind, ih]
  | closing kind _ ih => simp [pickFromBy, pickFrom, kind, ih]
  | plain kind _ ih => rw [pickFromBy_plain _ _ _ _ _ kind, pickFrom_plain _ _ _ _ kind, ih]

end Reads

theorem wrappedBy_eq {lower : Nat → Option Nat} {tokens : List Token}
    (same : closingBy lower 0 0 tokens = some (closing? 0 0 tokens)) :
    wrappedBy lower tokens = some (wrapped tokens) := by
  rw [wrappedBy, wrapped, same]
  split <;> simp_all

theorem dominantBy_eq {lower : Nat → Option Nat} {tokens : List Token}
    (same : pickFromBy lower 0 0 none tokens = some (pickFrom 0 0 none tokens)) :
    dominantBy lower tokens = some (dominant? tokens) := by
  rw [dominantBy, dominant?, same, Option.map_some]

end HartScope.Expr
