/-!
JSON documents.  Numerals other than plain digit strings are kept without their value, and a text
whose escapes name half of a surrogate pair is kept without its characters: both are well formed,
and nothing here asks for either.
-/

namespace HartScope

inductive JsonValue where
  | null
  | bool (value : Bool)
  /-- A numeral, with its value if it consists of digits alone. -/
  | number (natural : Option Nat)
  | text (content : Option String)
  | array (items : List JsonValue)
  | object (members : List (Option String × JsonValue))
deriving Inhabited

namespace JsonValue

def bool? : JsonValue → Option Bool
  | bool value => some value
  | _ => none

/-- A natural number below a limit. -/
def below? (limit : Nat) : JsonValue → Option Nat
  | number natural => natural.filter (· < limit)
  | _ => none

def text? : JsonValue → Option String
  | text content => content
  | _ => none

end JsonValue

/-- The fields of a record by name. -/
abbrev JsonRecord := List (String × JsonValue)

namespace JsonRecord

/-- The members with known names.  Every name has to be readable, and no known one may occur
twice. -/
def ofMembers? (names : List String) :
    List (Option String × JsonValue) → Option JsonRecord
  | [] => some []
  | (none, _) :: _ => none
  | (some name, value) :: rest => do
      let record ← ofMembers? names rest
      if names.contains name then
        if (record.lookup name).isSome then none else some ((name, value) :: record)
      else some record

/-- A record is written as an object, or as an array of its leading fields. -/
def ofValue? (names : List String) : JsonValue → Option JsonRecord
  | .object members => ofMembers? names members
  | .array items => if items.length ≤ names.length then some (names.zip items) else none
  | _ => none

/-- The decoded field, or the default where it is missing. -/
def field? {α : Type} (record : JsonRecord) (name : String) (decode : JsonValue → Option α)
    (default : α) : Option α :=
  match record.lookup name with
  | some value => decode value
  | none => some default

end JsonRecord

end HartScope
