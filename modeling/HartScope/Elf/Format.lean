import HartScope.Elf.Reader
import HartScope.Memory.LittleEndian

/-!
The layout of ELF files of both classes and both byte orders.  A record is a sequence of numbers of
given sizes; a table is a sequence of records that lies inside the file.
-/

namespace HartScope.Elf

inductive FileClass where
  | narrow
  | wide
deriving DecidableEq, Repr

structure Encoding where
  fileClass : FileClass
  order : ByteOrder
deriving DecidableEq, Repr

def FileClass.ofByte? : UInt8 → Option FileClass
  | 1 => some narrow
  | 2 => some wide
  | _ => none

def ByteOrder.ofByte? : UInt8 → Option ByteOrder
  | 1 => some little
  | 2 => some big
  | _ => none

/-- Size of an address or an offset. -/
def FileClass.word : FileClass → Nat
  | narrow => 4
  | wide => 8

def number (order : ByteOrder) (bytes : List UInt8) : Nat :=
  match order with
  | .little => LittleEndian.toNat bytes
  | .big => LittleEndian.toNat bytes.reverse

/-- Reads consecutive numbers of the given sizes. -/
def numbers (order : ByteOrder) : (sizes : List Nat) → List UInt8 → List Nat
  | [], _ => []
  | size :: rest, bytes => number order (bytes.take size) :: numbers order rest (bytes.drop size)

/-- The bytes of a range that lies inside the file. -/
def range? (file : Array UInt8) (offset size : Nat) : Option (List UInt8) :=
  if offset + size ≤ file.size then some (file.extract offset (offset + size)).toList else none

/-- A table of `count` records of `size` bytes each. -/
def table? (file : Array UInt8) (offset count size : Nat) : Option (List (List UInt8)) :=
  if offset + count * size ≤ file.size then
    some ((List.range count).map fun i =>
      (file.extract (offset + i * size) (offset + (i + 1) * size)).toList)
  else none

/-- The header of a file of either class. -/
structure HeaderRecord where
  encoding : Encoding
  type : UInt16
  machine : UInt16
  entry : UInt64
  segmentOffset : Nat
  sectionOffset : Nat
  segmentEntrySize : Nat
  segmentCount : Nat
  sectionEntrySize : Nat
  sectionCount : Nat
  /-- Index of the section that holds the section names. -/
  nameSection : Nat
deriving DecidableEq, Repr

structure Section where
  type : Nat
  offset : Nat
  size : Nat
  link : Nat
  info : Nat
deriving DecidableEq, Repr

structure SymbolRecord where
  /-- Offset of the name in the string table. -/
  name : Nat
  type : Nat
  value : UInt64
  size : UInt64
deriving DecidableEq, Repr

def headerSize : FileClass → Nat
  | .narrow => 52
  | .wide => 64

def segmentSize : FileClass → Nat
  | .narrow => 32
  | .wide => 56

def sectionSize : FileClass → Nat
  | .narrow => 40
  | .wide => 64

def symbolSize : FileClass → Nat
  | .narrow => 16
  | .wide => 24

/-- Class, byte order and version of the identification bytes. -/
def encoding? (file : Array UInt8) : Option Encoding := do
  let ident ← range? file 0 16
  guard (ident.take 4 = magic)
  let fileClass ← ident[4]? >>= FileClass.ofByte?
  let order ← ident[5]? >>= ByteOrder.ofByte?
  guard (ident[6]? = some 1)
  return ⟨fileClass, order⟩

def HeaderRecord.ofNumbers? (encoding : Encoding) : List Nat → Option HeaderRecord
  | [type, machine, _, entry, segmentOffset, sectionOffset, _, _, segmentEntrySize, segmentCount,
      sectionEntrySize, sectionCount, nameSection] =>
      some {
        encoding, segmentOffset, sectionOffset, segmentEntrySize, segmentCount, sectionEntrySize,
        sectionCount, nameSection
        type := UInt16.ofNat type
        machine := UInt16.ofNat machine
        entry := UInt64.ofNat entry }
  | _ => none

def HeaderRecord.parse? (file : Array UInt8) : Option HeaderRecord := do
  let encoding ← encoding? file
  let bytes ← range? file 0 (headerSize encoding.fileClass)
  let word := encoding.fileClass.word
  HeaderRecord.ofNumbers? encoding
    (numbers encoding.order [2, 2, 4, word, word, word, 4, 2, 2, 2, 2, 2, 2] (bytes.drop 16))

def Segment.ofNumbers (type offset address fileSize memorySize : Nat) : Segment where
  type := UInt32.ofNat type
  offset := UInt64.ofNat offset
  address := UInt64.ofNat address
  fileSize := UInt64.ofNat fileSize
  memorySize := UInt64.ofNat memorySize

def Segment.ofRecord? (encoding : Encoding) (record : List UInt8) : Option Segment :=
  match encoding.fileClass with
  | .narrow =>
      match numbers encoding.order [4, 4, 4, 4, 4, 4] record with
      | [type, offset, address, _, fileSize, memorySize] =>
          some (ofNumbers type offset address fileSize memorySize)
      | _ => none
  | .wide =>
      match numbers encoding.order [4, 4, 8, 8, 8, 8, 8] record with
      | [type, _, offset, address, _, fileSize, memorySize] =>
          some (ofNumbers type offset address fileSize memorySize)
      | _ => none

def Section.ofRecord? (encoding : Encoding) (record : List UInt8) : Option Section :=
  let word := encoding.fileClass.word
  match numbers encoding.order [4, 4, word, word, word, word, 4, 4] record with
  | [_, type, _, _, offset, size, link, info] => some { type, offset, size, link, info }
  | _ => none

/-- The type of a symbol is the low half of its information byte. -/
def SymbolRecord.ofNumbers (name info value size : Nat) : SymbolRecord where
  name := name
  type := info % 16
  value := UInt64.ofNat value
  size := UInt64.ofNat size

def SymbolRecord.ofRecord? (encoding : Encoding) (record : List UInt8) : Option SymbolRecord :=
  match encoding.fileClass with
  | .narrow =>
      match numbers encoding.order [4, 4, 4, 1] record with
      | [name, value, size, info] => some (ofNumbers name info value size)
      | _ => none
  | .wide =>
      match numbers encoding.order [4, 1, 1, 2, 8, 8] record with
      | [name, info, _, _, value, size] => some (ofNumbers name info value size)
      | _ => none

end HartScope.Elf
