/-!
Numerals as they are printed and read: hexadecimal with its `0x` mark, fields padded with blanks
or zeros, and unsigned readers that refuse a value at or above a limit.
-/

namespace HartScope.Numeral

def hex (n : Nat) : String :=
  "0x" ++ String.ofList (Nat.toDigits 16 n)

def hexPadded (digits n : Nat) : String :=
  "0x" ++ String.ofList ((Nat.toDigits 16 n).leftpad digits '0')

def byteHex (b : UInt8) : String :=
  String.ofList ((Nat.toDigits 16 b.toNat).leftpad 2 '0')

def padRight (width : Nat) (text : String) : String :=
  text ++ String.ofList (List.replicate (width - text.length) ' ')

def digit? (c : Char) : Option Nat :=
  if c.isDigit then some (c.toNat - '0'.toNat) else none

def hexDigit? (c : Char) : Option Nat :=
  if c.isDigit then some (c.toNat - '0'.toNat)
  else if 'a' ≤ c ∧ c ≤ 'f' then some (c.toNat - 'a'.toNat + 10)
  else if 'A' ≤ c ∧ c ≤ 'F' then some (c.toNat - 'A'.toNat + 10)
  else none

/-- Value of a digit string, most significant digit first; the empty string has value zero. -/
def fold? (base : Nat) (digit? : Char → Option Nat) (cs : List Char) : Option Nat :=
  cs.foldlM (fun acc c => (digit? c).map (acc * base + ·)) 0

def below? (limit : Nat) (value : Option Nat) : Option Nat :=
  value.filter (· < limit)

/-- A digit string in decimal; the empty one is no number. -/
def ofDecimal? (limit : Nat) (cs : List Char) : Option Nat :=
  if cs.isEmpty then none else below? limit (fold? 10 digit? cs)

def ofHex? (limit : Nat) (cs : List Char) : Option Nat :=
  if cs.isEmpty then none else below? limit (fold? 16 hexDigit? cs)

/-- A decimal numeral that may carry one leading plus sign. -/
def ofSigned? (limit : Nat) : List Char → Option Nat
  | '+' :: cs => ofDecimal? limit cs
  | cs => ofDecimal? limit cs

def wordLimit : Nat := UInt64.size

end HartScope.Numeral
