import HartScope.Proofs.Reference.Attachment

/-!
Which ELF files are loaded, and what they leave.  A file is accepted exactly if it is an executable of
the right kind with a loadable segment, and each of these has its bytes in the file and all its
addresses in RAM.  The image then spans the segments, so a reference can take it over.
-/

namespace HartScope

open Elf (File Reader Segment executable)

/-- The image goes from the least address of the segments to their greatest end. -/
structure Image.Spans (image : Image) (headers : List Segment) : Prop where
  starts : ∃ header ∈ headers, header.address = image.start
  below : ∀ header ∈ headers, image.start ≤ header.address
  ends : ∃ header ∈ headers, header.stop = image.start.toNat + image.size.toNat
  above : ∀ header ∈ headers, header.stop ≤ image.start.toNat + image.size.toNat

namespace Loading

variable {reader : Reader} {bytes : Array UInt8} {file : File} {headers : List Segment}
  {memory after : Memory} {image : Image}

/-- What a file has to be like to be loaded into RAM: an executable of the right kind with a loadable
segment, each of which has its bytes in the file and all its addresses in RAM.  An empty segment, too,
starts in RAM or right behind it. -/
structure Acceptable (memory : Memory) (bytes : Array UInt8) (file : File) : Prop where
  little : file.header.order = .little
  executable : file.header.type = Elf.executableType
  machine : file.header.machine = Elf.riscvMachine
  loads : loadable file ≠ []
  placeable : ∀ header ∈ loadable file, header.Placeable bytes memory

instance : Decidable (Acceptable memory bytes file) :=
  decidable_of_iff
    (file.header.order = .little ∧ file.header.type = Elf.executableType ∧
      file.header.machine = Elf.riscvMachine ∧ loadable file ≠ [] ∧
      ∀ header ∈ loadable file, header.Placeable bytes memory)
    ⟨fun ⟨little, executable, machine, loads, placeable⟩ =>
        ⟨little, executable, machine, loads, placeable⟩,
      fun ⟨little, executable, machine, loads, placeable⟩ =>
        ⟨little, executable, machine, loads, placeable⟩⟩

theorem acceptable_iff : Acceptable memory bytes file ↔
    headerDefect? file.header = none ∧ loadable file ≠ [] ∧
      ∀ header ∈ loadable file, header.Placeable bytes memory := by
  rw [headerDefect?_eq_none_iff]
  constructor
  · rintro ⟨little, executable, machine, loads, placeable⟩
    exact ⟨⟨little, executable, machine⟩, loads, placeable⟩
  · rintro ⟨⟨little, executable, machine⟩, loads, placeable⟩
    exact ⟨little, executable, machine, loads, placeable⟩

/-- An acceptable file is accepted, unless loading gets to an overflow. -/
theorem ofFile_accepted_iff (lawful : reader.Lawful) :
    (∃ image, (ofFile reader memory bytes file).result = .ok image) ↔
      Acceptable memory bytes file ∧ ¬Overflow bytes memory (loadable file) := by
  rw [acceptable_iff]
  have verdict := ofFile_verdict lawful bytes file memory
  generalize ofFile reader memory bytes file = loading at verdict
  cases verdict with
  | kept cause reason =>
      refine ⟨nofun, ?_⟩
      rintro ⟨⟨sound, loads, _⟩, _⟩
      rcases reason with defect | vacant
      · exact absurd sound defect
      · exact absurd vacant loads
  | stopped sound short cause =>
      refine ⟨nofun, ?_⟩
      rintro ⟨⟨_, _, placeable⟩, _⟩
      obtain ⟨earlier, bad, ⟨⟨later, split⟩, _⟩, unplaceable, _⟩ := short
      exact absurd (placeable bad (by simp [split])) unplaceable
  | overflowed sound overflow copied => exact ⟨nofun, fun ⟨_, passed⟩ => absurd overflow passed⟩
  | loaded loaded =>
      refine iff_of_true ⟨_, rfl⟩ ⟨⟨loaded.sound, loaded.loads, fun header member =>
        (loaded.fits header member).toPlaceable⟩, fun overflow => overflow.not_fit loaded.fits⟩

theorem elf_accepted_iff (lawful : reader.Lawful) :
    (∃ image, (elf reader memory bytes).result = .ok image) ↔
      ∃ file, reader.file? bytes = some file ∧ Acceptable memory bytes file ∧
        ¬Overflow bytes memory (loadable file) := by
  cases parsed : reader.file? bytes with
  | none => simp [elf, parsed]
  | some file => simp [elf, parsed, ofFile_accepted_iff lawful]

/-- In RAM whose end is an address no segment that can be placed overflows. -/
theorem not_overflow_of_placed (placed : memory.base.toNat + memory.size.toNat < UInt64.size) :
    ¬Overflow bytes memory headers := by
  rintro ⟨_, header, _, overflows⟩
  have room := Segment.dataStop_le_stop overflows.shorter
  have inside : header.stop ≤ _ := overflows.inside.2
  have beyond := overflows.beyond
  omega

/-- RAM and the image when the loadable segments of the file have been put into RAM. -/
structure Places (bytes : Array UInt8) (file : File) (before after : Memory) (image : Image) :
    Prop where
  base : after.base = before.base
  size : after.size = before.size
  byte : ∀ i < before.size.toNat, some (after.byte i) =
    match Segment.lastCovering? (loadable file) (before.base.toNat + i) with
    | none => some (before.byte i)
    | some header => header.content? bytes (before.base.toNat + i)
  entry : image.entry = file.header.entry
  spans : image.Spans (loadable file)
  holds : ∀ header ∈ loadable file, ∀ address, header.covers address = true →
    image.start.toNat ≤ address ∧ address < image.start.toNat + image.size.toNat
  inside : image.Inside before

/-- The span of segments that end at addresses goes from the least start to the greatest end. -/
theorem span_spans (ends : ∀ header ∈ headers, header.stop < UInt64.size) (loads : headers ≠ [])
    (ordered : (span .empty headers).low ≤ (span .empty headers).high) (entry : UInt64) :
    Image.Spans ⟨entry, (span .empty headers).low,
      (span .empty headers).high - (span .empty headers).low⟩ headers := by
  have reach := Extent.low_add_size ordered
  have stop (header : Segment) (member : header ∈ headers) : top header = header.stop :=
    Nat.min_eq_left (Nat.le_sub_one_of_lt (ends header member))
  obtain ⟨⟨first, firstMember, starts⟩, ⟨last, lastMember, reaches⟩⟩ := span_attained loads
  refine ⟨⟨first, firstMember, UInt64.toNat_inj.mp starts⟩, fun header member => ?_,
    ⟨last, lastMember, ?_⟩, fun header member => ?_⟩
  · exact UInt64.le_iff_toNat_le.mpr (span_low_le .empty member)
  · rw [reach, ← stop last lastMember, reaches]
  · rw [reach, ← stop header member]
    exact le_span_high .empty member

theorem Loaded.places (loaded : Loaded bytes file memory after image)
    (placed : memory.base.toNat + memory.size.toNat < UInt64.size) :
    Places bytes file memory after image := by
  obtain ⟨_, inside⟩ := loaded.confined
  obtain ⟨_, loads, fits, patched, ordered, rfl⟩ := loaded
  have ends (header : Segment) (member : header ∈ loadable file) : header.stop < UInt64.size :=
    Nat.lt_of_le_of_lt (fits header member).inside.2 placed
  have spans := span_spans ends loads ordered file.header.entry
  refine ⟨patched.base, patched.size, fun i inRam => ?_, rfl, spans,
    fun header member address covered => ?_, inside⟩
  · exact overlaid_byte (fun header member => (fits header member).toPlaceable) patched inRam
  · have lower := UInt64.le_iff_toNat_le.mp (spans.below header member)
    have upper := spans.above header member
    simp only [Segment.covers, Bool.and_eq_true, decide_eq_true_eq] at covered
    omega

end Loading

/-- RAM whose end is an address takes exactly the acceptable files.  What such a file leaves is what its
segments say, and a reference with RAM at the same place can take over its image. -/
theorem Loading.elf_loads_acceptable {reader : Reader} (lawful : reader.Lawful) {memory : Memory}
    (placed : memory.base.toNat + memory.size.toNat < UInt64.size) (bytes : Array UInt8) :
    ((∃ image, (elf reader memory bytes).result = .ok image) ↔
      ∃ file, reader.file? bytes = some file ∧ Acceptable memory bytes file) ∧
    ∀ image, (elf reader memory bytes).result = .ok image →
      ∃ file, reader.file? bytes = some file ∧
        Places bytes file memory (elf reader memory bytes).memory image ∧
        ∀ (model : Interpreter) (hart : Hart), model.bus.ram.base = memory.base →
          model.bus.ram.size = memory.size →
            (Lockstep.prepare model (elf reader memory bytes).memory image.start image.size.toNat
              hart).2 = .ok () := by
  constructor
  · rw [elf_accepted_iff lawful]
    exact exists_congr fun file => and_congr_right fun _ =>
      and_iff_left (not_overflow_of_placed placed)
  · intro image accepted
    obtain ⟨file, parsed, loaded⟩ := elf_accepted lawful accepted
    have places := loaded.places placed
    refine ⟨file, parsed, places, fun model hart base size => ?_⟩
    have inside : image.Inside (elf reader memory bytes).memory := by
      refine ⟨?_, ?_⟩
      · rw [places.base]
        exact places.inside.lower
      · rw [places.base, places.size]
        exact places.inside.upper
    obtain ⟨reference, prepared, _⟩ := model.prepare_mirrors inside (base.trans places.base.symm)
      (size.trans places.size.symm) hart
    rw [prepared]

namespace Loading

/-- Four bytes and four zeros at the start of RAM, and over these one byte and three zeros. -/
def overlappingFile : Array UInt8 :=
  executable 0x80000000 [⟨1, 176, 0x80000000, 4, 8⟩, ⟨1, 180, 0x80000002, 1, 4⟩] [1, 2, 3, 4, 5]

theorem overlappingFile_loads :
    let memory := Memory.filled 0x80000000 64 0xCC
    ∃ image file, (elf .standard memory overlappingFile).result = .ok image ∧
      Reader.standard.file? overlappingFile = some file ∧ Acceptable memory overlappingFile file ∧
      Places overlappingFile file memory (elf .standard memory overlappingFile).memory image := by
  intro memory
  have accepted : (elf .standard memory overlappingFile).result.toBool = true := by decide +kernel
  cases outcome : (elf .standard memory overlappingFile).result with
  | error cause =>
      rw [outcome] at accepted
      cases accepted
  | ok image =>
      have loads := elf_loads_acceptable Reader.standard_lawful
        (by decide : memory.base.toNat + memory.size.toNat < UInt64.size) overlappingFile
      obtain ⟨file, parsed, acceptable⟩ := loads.1.mp ⟨image, outcome⟩
      obtain ⟨other, again, places, _⟩ := loads.2 image outcome
      obtain rfl : file = other := Option.some.inj (parsed.symm.trans again)
      exact ⟨image, file, rfl, parsed, acceptable, places⟩

example :
    (List.range 9).map (elf .standard (Memory.filled 0x80000000 64 0xCC) overlappingFile).memory.byte =
      [1, 2, 5, 0, 0, 0, 0, 0, 0xCC] := by
  decide +kernel

end Loading

end HartScope
