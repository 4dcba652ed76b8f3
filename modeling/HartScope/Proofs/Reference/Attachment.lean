import HartScope.Elf.Parts
import HartScope.Proofs.Loading.Outcome
import HartScope.Reference.Interpreter
import HartScope.Simulator.Basic
import Mathlib.Control.Monad.Basic

/-!
What the in-process reference starts with.  Attaching it copies the range of the loaded image, so its
RAM has the bytes of the image and is blank elsewhere.  The simulator's RAM is blank there too, except
for what is left of the built-in program that it was created with.
-/

namespace HartScope

theorem Bus.withDevices_ram {δ : Type} [Device δ] (ram : Memory) (devices : List δ) :
    (withDevices ram devices).ram = ram := by
  have added (bus : Bus δ) : (devices.foldl add bus).ram = bus.ram := by
    induction devices generalizing bus with
    | nil => rfl
    | cons device rest ih => exact ih (bus.add device)
  exact added _

/-- A range of RAM is copied into a reference with RAM at the same place, and the rest of its RAM is
left alone. -/
theorem Interpreter.prepare_mirrors (model : Interpreter) {ram : Memory} {image : Image}
    (inside : image.Inside ram) (base : model.bus.ram.base = ram.base)
    (size : model.bus.ram.size = ram.size) (hart : Hart) :
    ∃ reference : Interpreter,
      Lockstep.prepare model ram image.start image.size.toNat hart = (reference, .ok ()) ∧
      reference.bus.ram.base = ram.base ∧ reference.bus.ram.size = ram.size ∧
      ∀ i < ram.size.toNat,
        (image.Covers ram.base i → reference.bus.ram.byte i = ram.byte i) ∧
        (¬image.Covers ram.base i → reference.bus.ram.byte i = model.bus.ram.byte i) := by
  have placed := inside.offset?
  have lower := inside.lower
  generalize offsetName : image.start.toNat - ram.base.toNat = offset at placed
  let bytes := ram.cells.slice ram.levels offset image.size.toNat
  have length : bytes.length = image.size.toNat := Cells.slice_length _ _ _ _
  have taken : ram.slice? image.start image.size.toNat = some bytes := by
    simp only [Memory.slice?, placed, Option.map_some, bytes]
  have room : model.bus.ram.offset? image.start bytes.length = some offset := by
    rw [length, ← placed]
    simp only [Memory.offset?, base, size]
  have present : (model.bus.ram.load? image.start bytes).isSome := by
    rw [Memory.load?_isSome, room]
    rfl
  obtain ⟨copy, copied⟩ := Option.isSome_iff_exists.mp present
  obtain ⟨copyBase, copySize⟩ := Memory.load?_place copied
  refine ⟨⟨(RegisterContext.ofHart hart).apply model.hart, { model.bus with ram := copy }⟩, ?_,
    copyBase.trans base, copySize.trans size, ?_⟩
  · simp only [Lockstep.prepare, taken, ReferenceModel.copyMemory, copyMemory, copied,
      ReferenceModel.setRegisters]
  · intro i bound
    have contents := Memory.load?_byte copied room (by rwa [size])
    rw [length] at contents
    unfold Image.Covers
    dsimp only
    constructor
    · intro covered
      have position : offset + (i - offset) = i := by omega
      rw [contents, if_pos (by omega), Cells.slice_getElem? _ _ (by omega), position]
      rfl
    · intro apart
      rw [contents, if_neg (by omega)]

/-- An executable with the given segments and, behind their headers, the given bytes. -/
def Elf.executable (entry : Nat) (headers : List Segment) (contents : List UInt8) : Array UInt8 :=
  let number := LittleEndian.ofNat
  let segment (header : Segment) := number 4 header.type.toNat ++ number 4 5 ++
    number 8 header.offset.toNat ++ number 8 header.address.toNat ++ number 8 header.address.toNat ++
    number 8 header.fileSize.toNat ++ number 8 header.memorySize.toNat ++ number 8 1
  (magic ++ [2, 1, 1] ++ List.replicate 9 0 ++ number 2 executableType.toNat ++
    number 2 riscvMachine.toNat ++ number 4 1 ++ number 8 entry ++ number 8 64 ++ number 8 0 ++
    number 4 0 ++ number 2 64 ++ number 2 56 ++ number 2 headers.length ++ number 2 0 ++ number 2 0 ++
    number 2 0 ++ headers.flatMap segment ++ contents).toArray

namespace Simulator

variable {ρ : Type} {simulator created : Simulator ρ} {reader : Elf.Reader} {bytes : Array UInt8}

/-- A new simulator has the built-in program in RAM that is blank otherwise. -/
theorem new_ram {config : Config} (creation : new config = .ok created) :
    created.bus.ram.base = config.memory.base ∧ created.bus.ram.size = config.memory.size ∧
      ∀ i < config.memory.size.toNat,
        created.bus.ram.byte i = Loading.builtinBytes[i]?.getD 0 := by
  simp only [new] at creation
  split at creation
  · cases creation
  · rename_i image loaded
    cases creation
    dsimp only
    rw [Bus.withDevices_ram]
    exact Loading.builtin_byte loaded fun i _ => Memory.new_byte _ _ i

/-- A program that is accepted is in RAM, and its image is recorded. -/
theorem load_accepted (accepted : (simulator.load reader bytes).result = .ok ()) :
    ∃ image, (Loading.ofBytes reader simulator.bus.ram bytes).result = .ok image ∧
      (simulator.load reader bytes).state.image = image ∧
      (simulator.load reader bytes).state.bus.ram =
        (Loading.ofBytes reader simulator.bus.ram bytes).memory := by
  simp only [load] at accepted ⊢
  cases loaded : (Loading.ofBytes reader simulator.bus.ram bytes).result with
  | error failure => simp [loaded, Reply.error] at accepted
  | ok image => exact ⟨image, rfl, rfl, rfl⟩

/-- After a program is loaded into a new simulator its image lies in RAM, and RAM beside the image holds
nothing but what is left of the built-in program. -/
theorem load_beside_image (lawful : reader.Lawful) {config : Config}
    (creation : new config = .ok created)
    (accepted : (created.load reader bytes).result = .ok ()) :
    let loaded := (created.load reader bytes).state
    loaded.bus.ram.base = config.memory.base ∧ loaded.bus.ram.size = config.memory.size ∧
      loaded.image.Inside loaded.bus.ram ∧
      ∀ i < loaded.bus.ram.size.toNat, ¬loaded.image.Covers loaded.bus.ram.base i →
        loaded.bus.ram.byte i = Loading.builtinBytes[i]?.getD 0 ∨ loaded.bus.ram.byte i = 0 := by
  intro loaded
  obtain ⟨base, size, builtin⟩ := new_ram creation
  obtain ⟨image, result, recorded, memory⟩ := load_accepted accepted
  obtain ⟨confined, inside⟩ := Loading.ofBytes_confined lawful result
  rw [← memory] at confined
  change loaded.image = image at recorded
  rw [recorded]
  refine ⟨confined.base.trans base, confined.size.trans size, ⟨?_, ?_⟩, ?_⟩
  · rw [confined.base]
    exact inside.lower
  · rw [confined.base, confined.size]
    exact inside.upper
  · intro i bound uncovered
    rw [confined.size] at bound
    rw [confined.base] at uncovered
    have before := builtin i (by rwa [← size])
    rw [← before]
    exact confined.outside i bound uncovered

/-- Attaching a reference with RAM of the same place and size copies the range of the image.  There
its RAM holds the simulator's bytes, elsewhere it is blank, and it holds the simulator's bytes
everywhere but where the image leaves bytes of the built-in program uncovered.  So both start from the
same memory if the image covers the built-in program. -/
theorem attach_mirrors_image (lawful : reader.Lawful) {config : Config}
    {created : Simulator Interpreter} (creation : new config = .ok created)
    (accepted : (created.load reader bytes).result = .ok ()) :
    let loaded := (created.load reader bytes).state
    ∃ reference : Interpreter,
      loaded.attach (Interpreter.new config.memory.base config.memory.size) =
        .ok { loaded with reference := some reference } ∧
      reference.bus.ram.base = loaded.bus.ram.base ∧
      reference.bus.ram.size = loaded.bus.ram.size ∧
      (∀ i < loaded.bus.ram.size.toNat,
        (loaded.image.Covers loaded.bus.ram.base i ∨ Loading.builtinBytes.length ≤ i →
          reference.bus.ram.byte i = loaded.bus.ram.byte i) ∧
        (¬loaded.image.Covers loaded.bus.ram.base i → reference.bus.ram.byte i = 0)) ∧
      ((∀ i < Loading.builtinBytes.length, loaded.image.Covers loaded.bus.ram.base i) →
        reference.bus.ram.Same loaded.bus.ram) := by
  intro loaded
  obtain ⟨base, size, inside, beside⟩ := load_beside_image lawful creation accepted
  obtain ⟨reference, prepared, referenceBase, referenceSize, mirrored⟩ :=
    Interpreter.prepare_mirrors (.new config.memory.base config.memory.size) inside
      base.symm size.symm loaded.hart
  have left (i : Nat) (bound : i < loaded.bus.ram.size.toNat)
      (uncovered : ¬loaded.image.Covers loaded.bus.ram.base i) :
      reference.bus.ram.byte i = 0 :=
    ((mirrored i bound).2 uncovered).trans (Memory.new_byte _ _ i)
  have agree (i : Nat) (bound : i < loaded.bus.ram.size.toNat)
      (reached : loaded.image.Covers loaded.bus.ram.base i ∨ Loading.builtinBytes.length ≤ i) :
      reference.bus.ram.byte i = loaded.bus.ram.byte i := by
    by_cases covered : loaded.image.Covers loaded.bus.ram.base i
    · exact (mirrored i bound).1 covered
    · have beyond := reached.resolve_left covered
      have untouched := beside i bound covered
      rw [List.getElem?_eq_none beyond] at untouched
      rw [left i bound covered]
      obtain builtin | cleared := untouched
      · exact builtin.symm
      · exact cleared.symm
  refine ⟨reference, ?_, referenceBase, referenceSize,
    fun i bound => ⟨agree i bound, left i bound⟩, ?_⟩
  · simp only [attach, loaded, prepared]
  · intro covering
    refine ⟨referenceBase, referenceSize, fun i bound => agree i (referenceSize ▸ bound) ?_⟩
    by_cases early : i < Loading.builtinBytes.length
    · exact .inl (covering i early)
    · exact .inr (Nat.not_lt.mp early)

/-- A board with 64 bytes of RAM, as it is created. -/
def smallConfig : Config :=
  { memory := { size := 64 } }

def smallBoard : Simulator Interpreter where
  hart := Hart.reset smallConfig.memory.base
  bus := Bus.withDevices (Loading.builtin (Memory.new smallConfig.memory.base 64)).memory
    Peripheral.defaults
  config := smallConfig
  image := ⟨smallConfig.memory.base, smallConfig.memory.base, 64⟩
  ring := Ring.new smallConfig.trace.ringCapacity

theorem smallBoard_created : new smallConfig = .ok smallBoard := by
  rfl

/-- An ELF file with one segment, 32 bytes into RAM: a halt, and four bytes to be cleared. -/
def segmentFile : Array UInt8 :=
  Elf.executable 0x80000020 [⟨1, 120, 0x80000020, 4, 8⟩] (LittleEndian.wordBytes 0x00100073)

theorem segment_file_is_mirrored :
    ∃ reference : Interpreter,
      (smallBoard.load .standard segmentFile).state.attach (Interpreter.new 0x80000000 64) =
        .ok { (smallBoard.load .standard segmentFile).state with reference := some reference } ∧
      reference.bus.ram.byte 32 = (smallBoard.load .standard segmentFile).state.bus.ram.byte 32 ∧
      reference.bus.ram.byte 4 = 0 := by
  have accepted : (smallBoard.load .standard segmentFile).result = .ok () := by
    decide +kernel
  obtain ⟨reference, attached, _, _, mirrored, _⟩ :=
    attach_mirrors_image Elf.Reader.standard_lawful smallBoard_created accepted
  exact ⟨reference, attached, (mirrored 32 (by decide +kernel)).1 (.inr (by decide)),
    (mirrored 4 (by decide +kernel)).2 (by decide +kernel)⟩

/-- A program of one word, a halt. -/
def shortProgram : Array UInt8 :=
  (LittleEndian.wordBytes 0x00100073).toArray

/-- Behind a program of one word the simulator keeps the second word of the built-in program, which the
reference does not get. -/
theorem short_program_leaves_builtin_unmirrored :
    ¬∀ (config : Config) (created : Simulator Interpreter) (bytes : Array UInt8),
      new config = .ok created → (created.load .standard bytes).result = .ok () →
        ∃ (attached : Simulator Interpreter) (reference : Interpreter),
          (created.load .standard bytes).state.attach
              (Interpreter.new config.memory.base config.memory.size) = .ok attached ∧
            attached.reference = some reference ∧
            ∀ i < attached.bus.ram.size.toNat,
              reference.bus.ram.byte i = attached.bus.ram.byte i := by
  intro complete
  have accepted : (smallBoard.load .standard shortProgram).result = .ok () := by
    decide +kernel
  obtain ⟨attached, reference, done, present, same⟩ :=
    complete smallConfig smallBoard shortProgram smallBoard_created accepted
  have compared : ((smallBoard.load .standard shortProgram).state.attach
      (Interpreter.new smallConfig.memory.base smallConfig.memory.size)).toOption.map
        (fun after => (after.bus.ram.size, after.bus.ram.byte 4,
          after.reference.map (·.bus.ram.byte 4))) = some (64, 0x23, some 0) := by
    decide +kernel
  simp only [done, Except.toOption, Option.map_some, present, Option.some.injEq,
    Prod.mk.injEq] at compared
  obtain ⟨size, kept, missing⟩ := compared
  have equal := same 4 (by rw [size]; decide)
  rw [kept, missing] at equal
  contradiction

end Simulator

end HartScope
