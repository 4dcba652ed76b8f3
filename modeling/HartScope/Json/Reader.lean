import HartScope.Json.Value
import HartScope.Text.Numeral

/-!
Reader for JSON documents.  Each reader takes the characters that are left and gives a value with
the characters behind it, or nothing where the text is not well formed.
-/

namespace HartScope.JsonReader

abbrev Reader (α : Type) := List Char → Option (α × List Char)

def isBlank (c : Char) : Bool :=
  c == ' ' || c == '\n' || c == '\t' || c == '\r'

def skipBlanks (cs : List Char) : List Char :=
  cs.dropWhile isBlank

/-- Value of exactly four hexadecimal digits. -/
def codeUnit : Reader Nat
  | a :: b :: c :: d :: rest => (Numeral.fold? 16 Numeral.hexDigit? [a, b, c, d]).map (·, rest)
  | _ => none

def isHighSurrogate (unit : Nat) : Bool :=
  0xD800 ≤ unit && unit < 0xDC00

def isLowSurrogate (unit : Nat) : Bool :=
  0xDC00 ≤ unit && unit < 0xE000

/-- The low half of a surrogate pair, written as an escape. -/
def lowSurrogate : Reader Nat
  | '\\' :: 'u' :: rest => (codeUnit rest).filter fun (unit, _) => isLowSurrogate unit
  | _ => none

/-- The character behind the mark of a numeric escape, none for half of a surrogate pair. -/
def escapedUnit (cs : List Char) : Option (Option Char × List Char) := do
  let (unit, rest) ← codeUnit cs
  if isHighSurrogate unit then
    match lowSurrogate rest with
    | some (low, rest) =>
        return (some (Char.ofNat (0x10000 + (unit - 0xD800) * 0x400 + (low - 0xDC00))), rest)
    | none => return (none, rest)
  else if isLowSurrogate unit then return (none, rest)
  else return (some (Char.ofNat unit), rest)

def simpleEscape? : Char → Option Char
  | '"' => some '"'
  | '\\' => some '\\'
  | '/' => some '/'
  | 'b' => some '\x08'
  | 'f' => some '\x0C'
  | 'n' => some '\n'
  | 'r' => some '\r'
  | 't' => some '\t'
  | _ => none

/-- One character of a text, escaped or plain; control characters have to be escaped. -/
def textChar : List Char → Option (Option Char × List Char)
  | '\\' :: 'u' :: rest => escapedUnit rest
  | '\\' :: c :: rest => (simpleEscape? c).map fun plain => (some plain, rest)
  | c :: rest => if c.toNat < 0x20 then none else some (some c, rest)
  | [] => none

/-- The text behind an opening quote.  `fuel` bounds its characters. -/
def textBody : (fuel : Nat) → (sofar : Option (List Char)) → Reader (Option String)
  | 0, _, _ => none
  | _ + 1, sofar, '"' :: rest => some (sofar.map fun cs => String.ofList cs.reverse, rest)
  | fuel + 1, sofar, cs => do
      let (c, rest) ← textChar cs
      textBody fuel (do return (← c) :: (← sofar)) rest

def text (cs : List Char) : Option (Option String × List Char) :=
  textBody (cs.length + 1) (some []) cs

def digits (cs : List Char) : List Char × List Char :=
  cs.span Char.isDigit

def someDigits (cs : List Char) : Option (List Char × List Char) :=
  let (read, rest) := digits cs
  if read.isEmpty then none else some (read, rest)

/-- The digits before the point; a leading zero stands alone. -/
def integerPart : Reader (List Char)
  | '0' :: rest => some (['0'], rest)
  | cs => someDigits cs

/-- Drops a fraction and tells whether there was one. -/
def fraction : Reader Bool
  | '.' :: rest => (someDigits rest).map fun (_, rest) => (true, rest)
  | cs => some (false, cs)

def exponentDigits : Reader Bool
  | '+' :: rest | '-' :: rest => (someDigits rest).map fun (_, rest) => (true, rest)
  | cs => (someDigits cs).map fun (_, rest) => (true, rest)

def exponent : Reader Bool
  | 'e' :: rest | 'E' :: rest => exponentDigits rest
  | cs => some (false, cs)

/-- A numeral behind its sign. -/
def unsigned (cs : List Char) : Option (Option Nat × List Char) := do
  let (whole, rest) ← integerPart cs
  let (hasFraction, rest) ← fraction rest
  let (hasExponent, rest) ← exponent rest
  let natural := if hasFraction || hasExponent then none else Numeral.fold? 10 Numeral.digit? whole
  return (natural, rest)

def number : Reader JsonValue
  | '-' :: rest => (unsigned rest).map fun (_, rest) => (.number none, rest)
  | cs => (unsigned cs).map fun (natural, rest) => (.number natural, rest)

def keyword (word : String) (value : JsonValue) (cs : List Char) : Option (JsonValue × List Char) :=
  if word.toList.isPrefixOf cs then some (value, cs.drop word.length) else none

mutual

/-- A value behind blanks.  `fuel` bounds the nesting and the number of its parts. -/
def value : (fuel : Nat) → Reader JsonValue
  | 0, _ => none
  | fuel + 1, cs =>
      match skipBlanks cs with
      | 'n' :: rest => keyword "null" .null ('n' :: rest)
      | 't' :: rest => keyword "true" (.bool true) ('t' :: rest)
      | 'f' :: rest => keyword "false" (.bool false) ('f' :: rest)
      | '"' :: rest => (text rest).map fun (content, rest) => (.text content, rest)
      | '[' :: rest =>
          match skipBlanks rest with
          | ']' :: rest => some (.array [], rest)
          | rest => (items fuel rest).map fun (items, rest) => (.array items, rest)
      | '\x7b' :: rest =>
          match skipBlanks rest with
          | '\x7d' :: rest => some (.object [], rest)
          | rest => (members fuel rest).map fun (members, rest) => (.object members, rest)
      | rest => number rest

/-- The items of an array up to its closing bracket, at least one. -/
def items : (fuel : Nat) → Reader (List JsonValue)
  | 0, _ => none
  | fuel + 1, cs =>
      match value fuel cs with
      | none => none
      | some (first, rest) =>
          match skipBlanks rest with
          | ']' :: rest => some ([first], rest)
          | ',' :: rest => (items fuel rest).map fun (others, rest) => (first :: others, rest)
          | _ => none

/-- The members of an object up to its closing brace, at least one. -/
def members : (fuel : Nat) → Reader (List (Option String × JsonValue))
  | 0, _ => none
  | fuel + 1, cs =>
      match skipBlanks cs with
      | '"' :: rest =>
          match text rest with
          | none => none
          | some (name, rest) =>
              match skipBlanks rest with
              | ':' :: rest =>
                  match value fuel rest with
                  | none => none
                  | some (first, rest) =>
                      match skipBlanks rest with
                      | '\x7d' :: rest => some ([(name, first)], rest)
                      | ',' :: rest =>
                          (members fuel rest).map fun (others, rest) =>
                            ((name, first) :: others, rest)
                      | _ => none
              | _ => none
      | _ => none

end

def document? (source : String) : Option JsonValue :=
  let cs := source.toList
  match value (2 * cs.length + 2) cs with
  | some (result, rest) => if (skipBlanks rest).isEmpty then some result else none
  | none => none

end HartScope.JsonReader
