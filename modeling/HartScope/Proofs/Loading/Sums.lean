import HartScope.Proofs.Loading.Acceptance

/-!
The sums of an address and a size in loading.  Where RAM ends no later than the address space, one of
them overflows only if RAM starts too close to its end for the built-in program, or if the bytes of a
segment end with the last address.  Neither says that the image does not fit.
-/

namespace HartScope.Loading

open Elf (File Reader Segment executable)

variable {reader : Reader} {bytes : Array UInt8} {file : File} {header : Segment}
  {memory : Memory}

/-- The bytes are an executable of the right kind, and loading it gets to a segment whose bytes end with
the last address or beyond. -/
def Spoils (reader : Reader) (bytes : Array UInt8) (memory : Memory) : Prop :=
  isElf bytes = true ∧ ∃ file, reader.file? bytes = some file ∧
    headerDefect? file.header = none ∧ Overflow bytes memory (loadable file)

/-- The image fits RAM: an ELF file by its segments, any other by its length. -/
structure FitsRam (reader : Reader) (bytes : Array UInt8) (memory : Memory) : Prop where
  elf : isElf bytes = true → ∃ file, reader.file? bytes = some file ∧ Acceptable memory bytes file
  raw : isElf bytes = false → bytes.size ≤ memory.size.toNat

theorem fitsRam_of_elf (magic : isElf bytes = true) :
    FitsRam reader bytes memory ↔
      ∃ file, reader.file? bytes = some file ∧ Acceptable memory bytes file := by
  refine ⟨fun fits => fits.elf magic, fun fits => ⟨fun _ => fits, fun plain => ?_⟩⟩
  rw [magic] at plain
  cases plain

theorem fitsRam_of_raw (plain : isElf bytes = false) :
    FitsRam reader bytes memory ↔ bytes.size ≤ memory.size.toNat := by
  refine ⟨fun fits => fits.raw plain, fun fits => ⟨fun magic => ?_, fun _ => fits⟩⟩
  rw [plain] at magic
  cases magic

theorem load?_base_isSome_iff {contents : List UInt8} :
    (memory.load? memory.base contents).isSome = true ↔ contents.length ≤ memory.size.toNat := by
  rw [Memory.load?_isSome_iff, Memory.Holds]
  omega

theorem builtin_overflow_iff (memory : Memory) :
    (builtin memory).result = .error .overflow ↔
      UInt64.size ≤ memory.base.toNat + builtinBytes.length := by
  have length : (UInt64.ofNat builtinBytes.length).toNat = builtinBytes.length := by decide
  rw [← length, ← exactSum?_eq_none_iff, builtin]
  cases exactSum? memory.base (UInt64.ofNat builtinBytes.length) with
  | none => simp
  | some stop => cases memory.load? memory.base builtinBytes <;> simp

theorem builtin_accepted_iff :
    (∃ image, (builtin memory).result = .ok image) ↔
      builtinBytes.length ≤ memory.size.toNat ∧
        memory.base.toNat + builtinBytes.length < UInt64.size := by
  rw [← load?_base_isSome_iff, ← Nat.not_le, ← builtin_overflow_iff, builtin]
  cases exactSum? memory.base (UInt64.ofNat builtinBytes.length) with
  | none => simp
  | some stop => cases memory.load? memory.base builtinBytes <;> simp

theorem raw_accepted_iff {contents : List UInt8} :
    (∃ image, (raw memory contents).result = .ok image) ↔
      contents.length ≤ memory.size.toNat := by
  rw [← load?_base_isSome_iff, raw]
  cases memory.load? memory.base contents <;> simp

theorem raw_no_overflow {contents : List UInt8} :
    (raw memory contents).result ≠ .error .overflow := by
  rw [raw]
  cases memory.load? memory.base contents <;> simp

theorem ofFile_overflow_iff (lawful : reader.Lawful) :
    (ofFile reader memory bytes file).result = .error .overflow ↔
      headerDefect? file.header = none ∧ Overflow bytes memory (loadable file) := by
  have verdict := ofFile_verdict lawful bytes file memory
  generalize ofFile reader memory bytes file = loading at verdict
  cases verdict with
  | kept cause reason =>
      refine ⟨nofun, ?_⟩
      rintro ⟨sound, _, header, ⟨⟨later, split⟩, _⟩, _⟩
      rcases reason with defect | vacant
      · exact absurd sound defect
      · simp [vacant] at split
  | stopped sound short cause => exact ⟨nofun, fun ⟨_, overflow⟩ => absurd short overflow.not_cutShort⟩
  | overflowed sound overflow copied => exact iff_of_true rfl ⟨sound, overflow⟩
  | loaded loaded => exact ⟨nofun, fun ⟨_, overflow⟩ => absurd loaded.fits overflow.not_fit⟩

theorem ofBytes_overflow_iff (lawful : reader.Lawful) :
    (ofBytes reader memory bytes).result = .error .overflow ↔ Spoils reader bytes memory := by
  by_cases magic : isElf bytes = true
  · rw [ofBytes, if_pos magic, Spoils, and_iff_right magic, elf]
    cases parsed : reader.file? bytes with
    | none => simp
    | some file => simp [ofFile_overflow_iff lawful]
  · rw [ofBytes, if_neg magic]
    exact iff_of_false raw_no_overflow fun spoils => magic spoils.1

/-- An image is accepted exactly if it fits RAM and loading it gets to no overflow. -/
theorem ofBytes_accepted_iff (lawful : reader.Lawful) :
    (∃ image, (ofBytes reader memory bytes).result = .ok image) ↔
      FitsRam reader bytes memory ∧ ¬Spoils reader bytes memory := by
  by_cases magic : isElf bytes = true
  · rw [ofBytes, if_pos magic, elf_accepted_iff lawful, fitsRam_of_elf magic]
    constructor
    · rintro ⟨file, parsed, acceptable, passed⟩
      refine ⟨⟨file, parsed, acceptable⟩, ?_⟩
      rintro ⟨_, other, read, _, overflow⟩
      cases parsed.symm.trans read
      exact passed overflow
    · rintro ⟨⟨file, parsed, acceptable⟩, unspoilt⟩
      exact ⟨file, parsed, acceptable, fun overflow =>
        unspoilt ⟨magic, file, parsed, (acceptable_iff.mp acceptable).1, overflow⟩⟩
  · have unspoilt : ¬Spoils reader bytes memory := fun spoils => magic spoils.1
    rw [ofBytes, if_neg magic, raw_accepted_iff, Array.length_toList,
      fitsRam_of_raw (Bool.not_eq_true _ ▸ magic), and_iff_left unspoilt]

/-- In RAM that ends no later than the addresses, the bytes of a segment overflow only if they end with
the last address, and with the segment and RAM. -/
theorem overflows_at_top (placed : memory.base.toNat + memory.size.toNat ≤ UInt64.size)
    (overflows : header.Overflows bytes memory) :
    memory.base.toNat + memory.size.toNat = UInt64.size ∧ header.fileSize = header.memorySize ∧
      header.dataStop = UInt64.size := by
  have shorter := UInt64.le_iff_toNat_le.mp overflows.shorter
  have room := overflows.inside.2
  have beyond := overflows.beyond
  rw [Segment.dataStop] at beyond ⊢
  rw [← UInt64.toNat_inj]
  omega

/-- Where RAM ends no later than the addresses, an image that fits is loaded and one that does not is
refused, with two exceptions, in which a sum overflows.  One is the built-in program in RAM that starts
in the last addresses; the other is a file that loading finds sound up to a segment whose bytes end
with the last address. -/
theorem sums_overflow_only_at_top {reader : Reader} (lawful : reader.Lawful) {memory : Memory}
    (placed : memory.base.toNat + memory.size.toNat ≤ UInt64.size) :
    (((builtin memory).result = .error .overflow ↔
        UInt64.size ≤ memory.base.toNat + builtinBytes.length) ∧
      ((∃ image, (builtin memory).result = .ok image) ↔
        builtinBytes.length ≤ memory.size.toNat ∧
          memory.base.toNat + builtinBytes.length < UInt64.size)) ∧
    ∀ bytes : Array UInt8,
      ((ofBytes reader memory bytes).result = .error .overflow ↔ Spoils reader bytes memory) ∧
      ((∃ image, (ofBytes reader memory bytes).result = .ok image) ↔
        FitsRam reader bytes memory ∧ ¬Spoils reader bytes memory) ∧
      (Spoils reader bytes memory → memory.base.toNat + memory.size.toNat = UInt64.size ∧
        ∃ file, reader.file? bytes = some file ∧ ∃ header ∈ loadable file,
          header.fileSize = header.memorySize ∧ header.dataStop = UInt64.size) := by
  refine ⟨⟨builtin_overflow_iff memory, builtin_accepted_iff⟩, fun bytes =>
    ⟨ofBytes_overflow_iff lawful, ofBytes_accepted_iff lawful, ?_⟩⟩
  rintro ⟨_, file, parsed, _, earlier, header, ⟨⟨later, split⟩, _⟩, overflows⟩
  obtain ⟨top, whole, last⟩ := overflows_at_top placed overflows
  exact ⟨top, file, parsed, header, by simp [split], whole, last⟩

/-- RAM of the last 32 addresses. -/
def topRam : Memory :=
  Memory.new 0xFFFFFFFFFFFFFFE0 32

/-- A raw image may fill RAM up to the last address, and the built-in program fits there, too. -/
theorem topRam_filled :
    topRam.base.toNat + topRam.size.toNat ≤ UInt64.size ∧
      (∃ image, (builtin topRam).result = .ok image) ∧
      ∃ image, (ofBytes .standard topRam (Array.replicate 32 0x13)).result = .ok image := by
  have placed : topRam.base.toNat + topRam.size.toNat ≤ UInt64.size := by decide
  obtain ⟨⟨_, program⟩, images⟩ := sums_overflow_only_at_top Reader.standard_lawful placed
  obtain ⟨_, accepted, _⟩ := images (Array.replicate 32 0x13)
  have plain : isElf (Array.replicate 32 0x13) = false := by decide +kernel
  have fits : FitsRam .standard (Array.replicate 32 0x13) topRam := by
    rw [fitsRam_of_raw plain]
    decide
  refine ⟨placed, program.mpr (by decide), accepted.mpr ⟨fits, fun spoils => ?_⟩⟩
  have magic := spoils.1
  rw [plain] at magic
  cases magic

/-- An executable whose only segment fills the last 32 addresses. -/
def topFile : Array UInt8 :=
  executable 0xFFFFFFFFFFFFFFE0 [⟨1, 120, 0xFFFFFFFFFFFFFFE0, 32, 32⟩] (List.replicate 32 0x13)

theorem topFile_acceptable :
    (Reader.standard.file? topFile).any
      (fun file => decide (Acceptable topRam topFile file)) = true := by
  decide +kernel

/-- The sum of its address and the length of its bytes overflows, though it fits. -/
theorem file_at_top_overflows :
    topRam.base.toNat + topRam.size.toNat ≤ UInt64.size ∧ FitsRam .standard topFile topRam ∧
      (ofBytes .standard topRam topFile).result = .error .overflow := by
  obtain ⟨file, parsed, acceptable⟩ := (Option.any_eq_true _ _).mp topFile_acceptable
  have fits : FitsRam .standard topFile topRam := by
    rw [fitsRam_of_elf (by decide +kernel)]
    exact ⟨file, parsed, of_decide_eq_true acceptable⟩
  exact ⟨by decide, fits, by decide +kernel⟩

end HartScope.Loading
