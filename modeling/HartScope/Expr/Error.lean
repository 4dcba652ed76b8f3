import HartScope.Text.Numeral

/-!
Why an expression has no value.
-/

namespace HartScope

inductive ExprError where
  /-- No lexical rule accepts the text at this position, counted in bytes. -/
  | noMatch (source : String) (position : Nat)
  | tokenTooLong (position : Nat)
  | tooManyTokens
  | unbalancedParens
  | badExpression
  | divideByZero
  | badNumber (text : String)
  | unknownRegister (text : String)
  | unknownSymbol (text : String)
  | badAddress (address : UInt64)
deriving DecidableEq, Repr

def ExprError.message : ExprError → String
  | noMatch source position => s!"no match at position {position} in '{source}'"
  | tokenTooLong position => s!"token at position {position} is too long"
  | tooManyTokens => "expression has too many tokens"
  | unbalancedParens => "unbalanced parentheses"
  | badExpression => "bad expression"
  | divideByZero => "division by zero"
  | badNumber text => s!"bad number '{text}'"
  | unknownRegister text => s!"unknown register '{text}'"
  | unknownSymbol text => s!"unknown symbol '{text}'"
  | badAddress address => s!"cannot access memory at {Numeral.hex address.toNat}"

end HartScope
