import HartScope.Elf.Reader
import HartScope.Loading.Error
import HartScope.Memory.Basic

/-!
Program images in RAM.  A file that starts with the ELF magic is loaded by segment, any other is
copied to the start of RAM.  Segments are checked and copied in file order, so a bad one leaves
those before it in RAM.  Two sums of an address and a size are not guarded, and loading goes no further
when one of them overflows.
-/

namespace HartScope

/-- Where a program starts, and which addresses it covers. -/
structure Image where
  entry : UInt64
  start : UInt64
  size : UInt64
deriving DecidableEq, Repr

/-- RAM after an attempt to load, with the image or what became of the attempt. -/
structure Loading where
  memory : Memory
  result : Except LoadFailure Image

namespace Loading

/-- The program that runs when no image is given: it stores a zero byte, loads it back into the
exit value and halts. -/
def builtinWords : List UInt32 :=
  [0x00000297, 0x00028823, 0x0102C503, 0x00100073, 0xDEADBEEF]

def builtinBytes : List UInt8 :=
  builtinWords.flatMap LittleEndian.wordBytes

/-- Size reported for the built-in program, unless RAM is smaller. -/
def builtinSize : UInt64 := 4096

/-- The end that a refusal would report is worked out for every program. -/
def builtin (memory : Memory) : Loading :=
  let copied := memory.load? memory.base builtinBytes
  match exactSum? memory.base (UInt64.ofNat builtinBytes.length), copied with
  | none, _ => ⟨copied.getD memory, .error .overflow⟩
  | some stop, none => ⟨memory, .error (.refused (.outOfMemory memory.base stop))⟩
  | some _, some loaded =>
      ⟨loaded, .ok ⟨memory.base, memory.base, min builtinSize memory.size⟩⟩

def wordMax : Nat := UInt64.size - 1

/-- The sum of an address and a length, or the largest address where that is too large. -/
def saturatingEnd (address : UInt64) (length : Nat) : UInt64 :=
  UInt64.ofNat (min (address.toNat + length) wordMax)

def raw (memory : Memory) (bytes : List UInt8) : Loading :=
  match memory.load? memory.base bytes with
  | none =>
      ⟨memory,
        .error (.refused (.outOfMemory memory.base (saturatingEnd memory.base bytes.length)))⟩
  | some loaded => ⟨loaded, .ok ⟨memory.base, memory.base, UInt64.ofNat bytes.length⟩⟩

/-- The least start and the greatest end of the segments loaded so far. -/
structure Extent where
  low : UInt64
  high : UInt64
deriving DecidableEq, Repr

namespace Extent

def empty : Extent :=
  ⟨UInt64.ofNat wordMax, 0⟩

def cover (extent : Extent) (start stop : UInt64) : Extent :=
  ⟨min extent.low start, max extent.high stop⟩

end Extent

/-- One loadable segment: RAM and its end address, or what became of it and RAM as it is then.  The
start of the cleared tail is worked out even if the tail is empty. -/
def segment (reader : Elf.Reader) (bytes : Array UInt8) (memory : Memory) (header : Elf.Segment) :
    Memory × Except LoadFailure UInt64 :=
  let stop := saturatingEnd header.address header.memorySize.toNat
  let outside := LoadFailure.refused (.outOfMemory header.address stop)
  match reader.contents? bytes header with
  | none => (memory, .error (.refused (.unsupported .segmentOutsideFile)))
  | some contents =>
      if header.memorySize < header.fileSize ∨
          ¬ memory.contains header.address header.memorySize.toNat then
        (memory, .error outside)
      else
        match memory.load? header.address contents with
        | none => (memory, .error outside)
        | some copied =>
            match exactSum? header.address header.fileSize with
            | none => (copied, .error .overflow)
            | some tail =>
                match copied.fillZero? tail (header.memorySize - header.fileSize).toNat with
                | none => (copied, .error outside)
                | some loaded => (loaded, .ok stop)

def segments (reader : Elf.Reader) (bytes : Array UInt8) :
    Memory → Extent → List Elf.Segment → Memory × Except LoadFailure Extent
  | memory, extent, [] => (memory, .ok extent)
  | memory, extent, header :: rest =>
      match segment reader bytes memory header with
      | (memory, .error failure) => (memory, .error failure)
      | (memory, .ok stop) =>
          segments reader bytes memory (extent.cover header.address stop) rest

/-- The checks on the header of an ELF file, in the order in which they are reported. -/
def headerDefect? (header : Elf.Header) : Option ElfDefect :=
  if header.order ≠ .little then some .notLittleEndian
  else if header.type ≠ Elf.executableType then some .notExecutable
  else if header.machine ≠ Elf.riscvMachine then some .wrongMachine
  else none

def loadable (file : Elf.File) : List Elf.Segment :=
  file.segments.filter (·.type == Elf.loadSegment)

def ofFile (reader : Elf.Reader) (memory : Memory) (bytes : Array UInt8) (file : Elf.File) :
    Loading :=
  match headerDefect? file.header with
  | some defect => ⟨memory, .error (.refused (.unsupported defect))⟩
  | none =>
      match segments reader bytes memory .empty (loadable file) with
      | (memory, .error failure) => ⟨memory, .error failure⟩
      | (memory, .ok extent) =>
          if extent.high < extent.low then
            ⟨memory, .error (.refused (.unsupported .noSegments))⟩
          else ⟨memory, .ok ⟨file.header.entry, extent.low, extent.high - extent.low⟩⟩

def elf (reader : Elf.Reader) (memory : Memory) (bytes : Array UInt8) : Loading :=
  match reader.file? bytes with
  | none => ⟨memory, .error (.refused .malformed)⟩
  | some file => ofFile reader memory bytes file

def isElf (bytes : Array UInt8) : Bool :=
  (bytes.extract 0 4).toList == Elf.magic

def ofBytes (reader : Elf.Reader) (memory : Memory) (bytes : Array UInt8) : Loading :=
  if isElf bytes then elf reader memory bytes else raw memory bytes.toList

end Loading

end HartScope
