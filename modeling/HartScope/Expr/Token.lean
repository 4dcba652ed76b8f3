import HartScope.Expr.Error

/-!
Tokens of the expression language.  Lexical rules are tried in order at each position and the first
that accepts a non-empty text wins; blanks separate tokens and are dropped.  A plus, minus or
asterisk that cannot be binary, because no operand ends before it, is unary.
-/

namespace HartScope

inductive TokenKind where
  | logicOr
  | logicAnd
  | eq
  | ne
  | le
  | ge
  | add
  | sub
  | mul
  | div
  | rem
  | lParen
  | rParen
  | lt
  | gt
  | bitOr
  | bitXor
  | bitAnd
  | hex
  | dec
  | reg
  | ident
  | pos
  | neg
  | deref
deriving DecidableEq, Repr

namespace TokenKind

/-- Binding strength of an operator; a lower rank binds more loosely. -/
def rank? : TokenKind → Option Nat
  | logicOr => some 0
  | logicAnd => some 1
  | bitOr => some 2
  | bitXor => some 3
  | bitAnd => some 4
  | eq | ne => some 5
  | lt | gt | le | ge => some 6
  | add | sub => some 7
  | mul | div | rem => some 8
  | pos | neg | deref => some 9
  | lParen | rParen | hex | dec | reg | ident => none

def isUnary : TokenKind → Bool
  | pos | neg | deref => true
  | _ => false

/-- Whether an operand may end with a token of this kind. -/
def endsOperand : TokenKind → Bool
  | rParen | hex | dec | reg | ident => true
  | _ => false

def toUnary : TokenKind → TokenKind
  | add => pos
  | sub => neg
  | mul => deref
  | kind => kind

/-- The reading of a kind behind the token before it. -/
def after (previous : Option TokenKind) (kind : TokenKind) : TokenKind :=
  if previous.any endsOperand then kind else kind.toUnary

end TokenKind

structure Token where
  kind : TokenKind
  text : String
deriving DecidableEq, Repr

namespace Lexer

/-- A rule gives the length of the text that it accepts at the front, zero for none. -/
abbrev Rule := List Char → Nat

def literal (text : String) : Rule := fun cs =>
  if text.toList.isPrefixOf cs then text.length else 0

def span (accepts : Char → Bool) : Rule := fun cs =>
  (cs.takeWhile accepts).length

def isHexDigit (c : Char) : Bool :=
  (Numeral.hexDigit? c).isSome

def isBlank (c : Char) : Bool :=
  c == ' ' || c == '\t'

def isWordChar (c : Char) : Bool :=
  c.isAlphanum || c == '_'

/-- A mark followed by at least one accepted character. -/
def marked (length : Nat) (rest : Nat) : Nat :=
  if rest = 0 then 0 else length + rest

def hexRule : Rule
  | '0' :: 'x' :: cs => marked 2 (span isHexDigit cs)
  | _ => 0

def regRule : Rule
  | '$' :: cs => marked 1 (span Char.isAlphanum cs)
  | _ => 0

def identRule : Rule
  | c :: cs => if c.isAlpha || c == '_' then span isWordChar (c :: cs) else 0
  | [] => 0

/-- The rules in order; the rule of blanks makes no token. -/
def rules : List (Option TokenKind × Rule) :=
  [(none, span isBlank),
   (some .logicOr, literal "||"), (some .logicAnd, literal "&&"),
   (some .eq, literal "=="), (some .ne, literal "!="),
   (some .le, literal "<="), (some .ge, literal ">="),
   (some .add, literal "+"), (some .sub, literal "-"), (some .mul, literal "*"),
   (some .div, literal "/"), (some .rem, literal "%"),
   (some .lParen, literal "("), (some .rParen, literal ")"),
   (some .lt, literal "<"), (some .gt, literal ">"),
   (some .bitOr, literal "|"), (some .bitXor, literal "^"), (some .bitAnd, literal "&"),
   (some .hex, hexRule), (some .dec, span Char.isDigit),
   (some .reg, regRule), (some .ident, identRule)]

/-- Kind and length of the first rule that accepts a non-empty text. -/
def lexeme? (cs : List Char) : Option (Option TokenKind × Nat) :=
  rules.findSome? fun (kind, rule) => if rule cs = 0 then none else some (kind, rule cs)

theorem lexeme?_pos {cs : List Char} {kind : Option TokenKind} {length : Nat}
    (matched : lexeme? cs = some (kind, length)) : 0 < length := by
  obtain ⟨⟨ruleKind, rule⟩, _, accepted⟩ := List.exists_of_findSome?_eq_some matched
  by_cases empty : rule cs = 0
  · simp [empty] at accepted
  · simp only [if_neg empty, Option.some.injEq, Prod.mk.injEq] at accepted
    omega

/-- A token has fewer bytes than this. -/
def maxTokenLength : Nat := 32

/-- An expression has fewer tokens than this. -/
def maxTokens : Nat := 32

/-- Adds one token to those before it, unless it is too long or there are too many. -/
def push (tokens : Array Token) (position : Nat) (kind : TokenKind) (text : List Char) :
    Except ExprError (Array Token) :=
  if maxTokenLength ≤ text.length then .error (.tokenTooLong position)
  else if maxTokens ≤ tokens.size + 1 then .error .tooManyTokens
  else
    .ok (tokens.push ⟨kind.after (tokens.back?.map Token.kind), String.ofList text⟩)

/-- Tokens of the text that is left.  Every character before it is ASCII, so `position` counts
bytes and characters alike. -/
def scan (source : String) (position : Nat) (tokens : Array Token) (cs : List Char) :
    Except ExprError (List Token) :=
  match cs with
  | [] => .ok tokens.toList
  | c :: rest =>
      match matched : lexeme? (c :: rest) with
      | none => .error (.noMatch source position)
      | some (none, length) =>
          have := lexeme?_pos matched
          scan source (position + length) tokens ((c :: rest).drop length)
      | some (some kind, length) =>
          have := lexeme?_pos matched
          match push tokens position kind ((c :: rest).take length) with
          | .error error => .error error
          | .ok tokens => scan source (position + length) tokens ((c :: rest).drop length)
termination_by cs.length
decreasing_by
  all_goals
    simp only [List.length_drop, List.length_cons]
    omega

end Lexer

def tokenize (source : String) : Except ExprError (List Token) :=
  Lexer.scan source 0 #[] source.toList

end HartScope
