import HartScope.Elf.Format

/-!
The reader of ELF files by their layout: header, segments, sections and the symbol table.  A file whose
header is damaged, whose tables do not lie inside it, or whose sections refer to sections that cannot
serve them, is malformed.
-/

namespace HartScope.Elf

def symbolTableType : Nat := 2
def stringTableType : Nat := 3
def relocationTypes : List Nat := [4, 9]
def emptyType : Nat := 8
def dynamicSymbolsType : Nat := 11
def extendedIndexType : Nat := 18

/-- Types of the symbols that stand for code. -/
def codeTypes : List Nat := [2, 10]

/-- Counts and indices at this limit are kept in the first section header instead. -/
def reservedIndex : Nat := 0xFFFF

/-- Where the names of symbols are: from `start` up to `stop`. -/
structure StringRange where
  start : Nat
  stop : Nat
deriving DecidableEq, Repr

/-- The symbols of a file, and the index of the section that holds them. -/
structure SymbolSection where
  index : Nat := 0
  entries : List SymbolRecord := []
  strings : StringRange := ⟨0, 0⟩

/-- A file taken apart. -/
structure Parts where
  header : HeaderRecord
  segments : List Segment
  symbols : List SymbolRecord
  strings : StringRange

namespace Section

/-- A section that occupies bytes of the file ends at an offset that can be stated. -/
def endsInRange (part : Section) : Bool :=
  part.type == emptyType || part.offset + part.size < UInt64.size

def isRelocation (part : Section) : Bool :=
  relocationTypes.contains part.type

end Section

namespace HeaderRecord

def firstSection? (header : HeaderRecord) (file : Array UInt8) : Option Section := do
  let size := sectionSize header.encoding.fileClass
  guard (header.sectionEntrySize = size)
  Section.ofRecord? header.encoding (← range? file header.sectionOffset size)

def segmentCount? (header : HeaderRecord) (file : Array UInt8) : Option Nat :=
  if header.segmentCount < reservedIndex then some header.segmentCount
  else if header.sectionOffset = 0 then none
  else (header.firstSection? file).map Section.info

def segments? (header : HeaderRecord) (file : Array UInt8) : Option (List Segment) := do
  if header.segmentOffset = 0 then return []
  let count ← header.segmentCount? file
  if count = 0 then return []
  let size := segmentSize header.encoding.fileClass
  guard (header.segmentEntrySize = size)
  (← table? file header.segmentOffset count size).mapM (Segment.ofRecord? header.encoding)

def sectionCount? (header : HeaderRecord) (file : Array UInt8) : Option Nat :=
  if 0 < header.sectionCount then some header.sectionCount
  else (header.firstSection? file).map Section.size

def sections? (header : HeaderRecord) (file : Array UInt8) : Option (List Section) := do
  if header.sectionOffset = 0 then return []
  let count ← header.sectionCount? file
  if count = 0 then return []
  let size := sectionSize header.encoding.fileClass
  guard (header.sectionEntrySize = size)
  (← table? file header.sectionOffset count size).mapM (Section.ofRecord? header.encoding)

/-- The section names are in a section of the table, which is not the first. -/
def namesPresent (header : HeaderRecord) (sections : List Section) : Bool :=
  let index :=
    if header.nameSection = reservedIndex then (sections.head?.map Section.link).getD 0
    else header.nameSection
  sections.isEmpty || (0 < index && sections[index]?.any Section.endsInRange)

end HeaderRecord

/-- The string table that a symbol table links to; link zero is the empty one. -/
def stringRange? (sections : List Section) (link : Nat) : Option StringRange :=
  if link = 0 then some ⟨0, 0⟩
  else
    match sections[link]? with
    | none => none
    | some strings =>
        if strings.type = stringTableType ∧ strings.endsInRange then
          some ⟨strings.offset, strings.offset + strings.size⟩
        else none

/-- The extended section indices of the symbols in section `index` are whole entries of four bytes,
all inside the file. -/
def extendedIndicesPresent (file : Array UInt8) (sections : List Section) (index : Nat) : Bool :=
  sections.all fun part =>
    part.type != extendedIndexType || part.link != index ||
      (part.size % 4 == 0 && part.offset + part.size ≤ file.size)

/-- Relocations by the symbols in section `index` change a section of the table that holds no
relocations itself, or, where they name the first section, none. -/
def relocationTargetsPresent (sections : List Section) (index : Nat) : Bool :=
  sections.all fun part =>
    !part.isRelocation || part.link != index || part.info == 0 ||
      sections[part.info]?.any (!·.isRelocation)

/-- The first symbol table of a type, empty where there is none. -/
def symbolSection? (encoding : Encoding) (file : Array UInt8) (sections : List Section)
    (type : Nat) : Option SymbolSection :=
  match sections.zipIdx.find? (·.1.type == type) with
  | none => some {}
  | some (table, index) => do
      let size := symbolSize encoding.fileClass
      guard (table.size % size = 0)
      let records ← table? file table.offset (table.size / size) size
      let entries ← records.mapM (SymbolRecord.ofRecord? encoding)
      let strings ← stringRange? sections table.link
      guard (extendedIndicesPresent file sections index)
      return { index, entries, strings }

def Parts.parse? (bytes : Array UInt8) : Option Parts := do
  let header ← HeaderRecord.parse? bytes
  let segments ← header.segments? bytes
  let sections ← header.sections? bytes
  guard (header.namesPresent sections)
  let symbols ← symbolSection? header.encoding bytes sections symbolTableType
  let _ ← symbolSection? header.encoding bytes sections dynamicSymbolsType
  guard (relocationTargetsPresent sections symbols.index)
  return { header, segments, symbols := symbols.entries, strings := symbols.strings }

/-- The name at an offset of the string table, if it ends inside the table and is valid text. -/
def Parts.symbolName? (parts : Parts) (bytes : Array UInt8) (symbol : SymbolRecord) :
    Option String := do
  let start := parts.strings.start + symbol.name
  guard (start ≤ parts.strings.stop ∧ parts.strings.stop ≤ bytes.size)
  let rest := (bytes.extract start parts.strings.stop).toList
  let name := rest.takeWhile (· != 0)
  guard (name.length < rest.length)
  String.fromUTF8? ⟨name.toArray⟩

def Parts.symbolEntry (parts : Parts) (bytes : Array UInt8) (symbol : SymbolRecord) :
    SymbolEntry where
  name? := parts.symbolName? bytes symbol
  isCode := codeTypes.contains symbol.type
  address := symbol.value
  size := symbol.size

/-- The first entry of a symbol table is no symbol. -/
def Parts.symbolFile (parts : Parts) (bytes : Array UInt8) : SymbolFile where
  executable := parts.header.type = executableType
  symbols := (parts.symbols.drop 1).map (parts.symbolEntry bytes)

def Parts.file (parts : Parts) : File where
  header :=
    { order := parts.header.encoding.order
      type := parts.header.type
      machine := parts.header.machine
      entry := parts.header.entry }
  segments := parts.segments

namespace Reader

/-- The reader that the program uses. -/
def standard : Reader where
  file? bytes :=
    ((Parts.parse? bytes).filter (·.header.encoding.fileClass = .wide)).map Parts.file
  contents? bytes segment := range? bytes segment.offset.toNat segment.fileSize.toNat
  symbolFile? bytes := (Parts.parse? bytes).map (·.symbolFile bytes)

theorem standard_lawful : standard.Lawful where
  contents?_isSome_iff bytes segment := by
    simp only [standard, range?]
    split <;> simp_all
  contents?_length {bytes segment contents} found := by
    simp only [standard, range?] at found
    split at found
    · cases found
      simp only [Array.length_toList, Array.size_extract]
      omega
    · cases found
  contents?_getElem? {bytes segment contents} found i inside := by
    simp only [standard, range?] at found
    split at found
    · cases found
      rw [Array.getElem?_toList, Array.getElem?_extract, if_pos (by omega)]
    · cases found

end Reader

end HartScope.Elf
