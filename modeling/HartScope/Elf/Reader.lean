/-!
What the loaders ask of an ELF file.  Taking a file apart is left to a reader, which also has the bytes
of a segment and the symbols of a file.
-/

namespace HartScope.Elf

inductive ByteOrder where
  | little
  | big
deriving DecidableEq, Repr

def magic : List UInt8 := [0x7F, 0x45, 0x4C, 0x46]

def executableType : UInt16 := 2
def riscvMachine : UInt16 := 243
def loadSegment : UInt32 := 1

structure Header where
  order : ByteOrder
  type : UInt16
  machine : UInt16
  entry : UInt64
deriving DecidableEq, Repr

structure Segment where
  type : UInt32
  offset : UInt64
  address : UInt64
  fileSize : UInt64
  memorySize : UInt64
deriving DecidableEq, Repr

/-- The header of a file and its segments, in the order of the file. -/
structure File where
  header : Header
  segments : List Segment
deriving DecidableEq, Repr

/-- A symbol, with its name if that is valid text. -/
structure SymbolEntry where
  name? : Option String
  isCode : Bool
  address : UInt64
  size : UInt64
deriving DecidableEq, Repr

/-- The symbols of a file, in the order of the file. -/
structure SymbolFile where
  executable : Bool
  symbols : List SymbolEntry
deriving DecidableEq, Repr

structure Reader where
  /-- A file with addresses of 64 bits taken apart, unless it is malformed. -/
  file? : Array UInt8 → Option File
  /-- The bytes that a file has for a segment. -/
  contents? : Array UInt8 → Segment → Option (List UInt8)
  /-- The symbols of a file with addresses of 32 or 64 bits, unless it is malformed. -/
  symbolFile? : Array UInt8 → Option SymbolFile

/-- What a reader promises: the bytes of a segment are those that the file has from the segment's offset
on, as many as the size in the file says, and they are there if the file is that long. -/
structure Reader.Lawful (reader : Reader) : Prop where
  contents?_isSome_iff (bytes : Array UInt8) (segment : Segment) :
    (reader.contents? bytes segment).isSome = true ↔
      segment.offset.toNat + segment.fileSize.toNat ≤ bytes.size
  contents?_length {bytes : Array UInt8} {segment : Segment} {contents : List UInt8} :
    reader.contents? bytes segment = some contents → contents.length = segment.fileSize.toNat
  contents?_getElem? {bytes : Array UInt8} {segment : Segment} {contents : List UInt8} :
    reader.contents? bytes segment = some contents → ∀ i < segment.fileSize.toNat,
      contents[i]? = bytes[segment.offset.toNat + i]?

end HartScope.Elf
