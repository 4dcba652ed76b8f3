/-!
Text of bytes that need not be well-formed UTF-8.  A character's bytes are accepted one by one, and
what has been accepted when the next byte cannot go on becomes one replacement character, as does a
byte that starts no character.
-/

namespace HartScope.Utf8

def replacement : Char := '\uFFFD'

/-- The bytes from `low` to `high`. -/
structure ByteRange where
  low : UInt8
  high : UInt8
deriving DecidableEq, Repr

def ByteRange.contains (range : ByteRange) (byte : UInt8) : Bool :=
  range.low ≤ byte && byte ≤ range.high

def continuation : ByteRange := ⟨0x80, 0xBF⟩

/-- A character of which some bytes are still expected. -/
structure Pending where
  /-- The bits that the bytes so far have given. -/
  code : Nat
  expected : List ByteRange
deriving DecidableEq, Repr

/-- What the first byte of a character says about it.  The ranges of the second byte leave out
overlong forms, surrogates, and codes above the last character. -/
def Pending.ofLead? (byte : UInt8) : Option Pending :=
  let code := byte.toNat
  if byte < 0x80 then some ⟨code, []⟩
  else if byte < 0xC2 then none
  else if byte < 0xE0 then some ⟨code % 0x20, [continuation]⟩
  else if byte = 0xE0 then some ⟨0, [⟨0xA0, 0xBF⟩, continuation]⟩
  else if byte = 0xED then some ⟨0xD, [⟨0x80, 0x9F⟩, continuation]⟩
  else if byte < 0xF0 then some ⟨code % 0x10, [continuation, continuation]⟩
  else if byte = 0xF0 then some ⟨0, [⟨0x90, 0xBF⟩, continuation, continuation]⟩
  else if byte < 0xF4 then some ⟨code % 0x8, [continuation, continuation, continuation]⟩
  else if byte = 0xF4 then some ⟨0x4, [⟨0x80, 0x8F⟩, continuation, continuation]⟩
  else none

structure Decoder where
  text : String := ""
  pending : Option Pending := none
deriving DecidableEq, Repr

namespace Decoder

/-- Keeps a character open, or adds it where it is complete. -/
def put (text : String) (pending : Pending) : Decoder :=
  match pending.expected with
  | [] => { text := text.push (Char.ofNat pending.code) }
  | _ :: _ => { text, pending := some pending }

def start (text : String) (byte : UInt8) : Decoder :=
  match Pending.ofLead? byte with
  | some pending => put text pending
  | none => { text := text.push replacement }

def accept (decoder : Decoder) (byte : UInt8) : Decoder :=
  match decoder.pending with
  | none => start decoder.text byte
  | some ⟨_, []⟩ => start decoder.text byte
  | some ⟨code, range :: expected⟩ =>
      if range.contains byte then put decoder.text ⟨code * 0x40 + byte.toNat % 0x40, expected⟩
      else start (decoder.text.push replacement) byte

def finish (decoder : Decoder) : String :=
  if decoder.pending.isSome then decoder.text.push replacement else decoder.text

end Decoder

def decode (bytes : List UInt8) : String :=
  (bytes.foldl Decoder.accept {}).finish

end HartScope.Utf8
