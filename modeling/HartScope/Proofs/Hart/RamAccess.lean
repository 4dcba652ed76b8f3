import HartScope.Proofs.Hart.Decoding
import HartScope.Proofs.Isa.TwosComplement
import HartScope.Proofs.Memory.Stores

/-!
Loads and stores in RAM.  A load takes the number that the addressed bytes spell, a store changes
the addressed bytes only, and so a loaded byte is the one that was last stored at its address.
-/

namespace HartScope

namespace LoadForm

/-- The number that a load makes of the bytes. -/
def valueOf (form : LoadForm) (bytes : List UInt8) : Int :=
  if form.signed then Word.signed (8 * form.width.bytes - 1) (LittleEndian.toNat bytes)
  else LittleEndian.toNat bytes

/-- The minor opcodes below three sign-extend, and the low two bits of each choose the width. -/
theorem of_minor {code : Nat} {form : LoadForm} (found : ofFunct3? code = some form) :
    form.width.bytes = 2 ^ (code % 4) ∧ (form.signed = true ↔ code < 3) := by
  unfold ofFunct3? at found
  split at found <;> cases found <;> decide

/-- At the top of a word the low bits keep their sign. -/
theorem bmod_shifted (width : Width) {value : Nat} (small : value < 1 <<< (8 * width.bytes)) :
    ((value <<< (64 - width.bytes * 8) : Nat) : Int).bmod (2 ^ 64) =
      Word.signed (8 * width.bytes - 1) value * 2 ^ (64 - width.bytes * 8) := by
  rw [Int.bmod_eq_iff (by decide), Nat.shiftLeft_eq, Word.signed]
  by_cases positive : value < 1 <<< (8 * width.bytes - 1)
  · rw [if_pos positive]
    cases width <;> simp only [Width.bytes] at small positive ⊢ <;> omega
  · rw [if_neg positive]
    cases width <;> simp only [Width.bytes] at small positive ⊢ <;> omega

/-- Shifting up and arithmetically down again extends the sign. -/
theorem extend_toInt {form : LoadForm} (signed : form.signed = true) {value : UInt64}
    (small : value.toNat < 1 <<< (8 * form.width.bytes)) :
    (form.extend value).toInt64.toInt = Word.signed (8 * form.width.bytes - 1) value.toNat := by
  have shifted : (form.extend value).toInt64.toBitVec =
      (value.toBitVec <<< (64 - form.width.bytes * 8)).sshiftRight (64 - form.width.bytes * 8) := by
    obtain ⟨width, _⟩ := form
    cases signed
    cases width <;> rfl
  have number : value.toBitVec.toNat = value.toNat := rfl
  rw [Int64.toInt, shifted, BitVec.toInt_sshiftRight, BitVec.toInt_shiftLeft, number,
    bmod_shifted form.width small, Int.shiftRight_eq_div_pow, Nat.cast_pow]
  exact Int.mul_ediv_cancel _ (pow_ne_zero _ (by decide))

theorem extend_eq_ofInt (form : LoadForm) {bytes : List UInt8}
    (length : bytes.length = form.width.bytes) :
    form.extend (UInt64.ofNat (LittleEndian.toNat bytes)) = UInt64.ofInt (form.valueOf bytes) := by
  have small : LittleEndian.toNat bytes < 1 <<< (8 * form.width.bytes) :=
    length ▸ LittleEndian.toNat_lt bytes
  have fits : 1 <<< (8 * form.width.bytes) ≤ 2 ^ 64 := by cases form.width <;> decide
  have number : (UInt64.ofNat (LittleEndian.toNat bytes)).toNat = LittleEndian.toNat bytes :=
    UInt64.toNat_ofNat_of_lt' (Nat.lt_of_lt_of_le small fits)
  cases signed : form.signed with
  | false =>
      simp only [extend, valueOf, signed, Bool.false_eq_true, if_false]
      apply UInt64.toBitVec_inj.mp
      rw [toBitVec_ofInt, BitVec.ofInt_natCast]
      rfl
  | true =>
      have value := extend_toInt signed (number.symm ▸ small)
      rw [number] at value
      apply UInt64.toBitVec_inj.mp
      rw [valueOf, if_pos signed, toBitVec_ofInt, ← value]
      exact BitVec.ofInt_toInt.symm

end LoadForm

/-- The minor opcode of a store chooses its width. -/
theorem Width.of_minor {code : Nat} {width : Width} (found : ofFunct3? code = some width) :
    width.bytes = 2 ^ code := by
  unfold ofFunct3? at found
  split at found <;> cases found <;> rfl

namespace Instruction

/-- The minor opcode is that of the load or the store. -/
def HasMinor (code : Nat) : Instruction → Prop
  | load form .. => LoadForm.ofFunct3? code = some form
  | store width .. => Width.ofFunct3? code = some width
  | _ => True

theorem hasMinor_of_ofWord? {word : UInt32} {instruction : Instruction}
    (decoded : ofWord? word = some instruction) : instruction.HasMinor (Word.funct3 word) := by
  obtain ⟨opcode, _, found⟩ := Option.bind_eq_some_iff.mp decoded
  cases opcode with
  | load | store =>
      obtain ⟨_, known, rfl⟩ := Option.map_eq_some_iff.mp found
      exact known
  | lui | auipc | jal | miscMem =>
      cases found
      trivial
  | jalr =>
      dsimp only at found
      split at found <;> cases found
      trivial
  | branch | opImm | opImm32 | op | op32 =>
      obtain ⟨_, _, rfl⟩ := Option.map_eq_some_iff.mp found
      trivial
  | system =>
      rcases ofSystem?_cases found with privileged | ⟨_, _, _, _, _, _, rfl⟩
      · have listed := ofPrivileged?_cases privileged
        simp only [List.mem_cons, Prod.mk.injEq, List.not_mem_nil, or_false] at listed
        rcases listed with ⟨_, rfl⟩ | ⟨_, rfl⟩ | ⟨_, rfl⟩ <;> trivial
      · trivial

end Instruction

variable {δ : Type} [Device δ]

namespace Bus

theorem read_ram (bus : Bus δ) (address : UInt64) (width : Width) (kind : AccessKind) :
    (bus.read address width kind).bus.ram = bus.ram := by
  obtain ⟨_, _, shape⟩ | ⟨_, _, shape⟩ | ⟨_, _, _, _, shape⟩ :=
    bus.read_cases address width kind
  · rw [shape]
  · rw [shape]
  · rw [shape]
    rfl

/-- A write that RAM does not hold changes no byte of it. -/
theorem write_ram {bus : Bus δ} {address : UInt64} {width : Width}
    (outside : ¬bus.ram.Holds address width.bytes) (value : UInt64) :
    (bus.write address width value).bus.ram = bus.ram := by
  obtain ⟨ram, written, _⟩ | ⟨_, _, shape⟩ | ⟨_, _, _, _, shape⟩ :=
    bus.write_cases address width value
  · exact absurd ((bus.ram.write?_isSome_iff address width value).mp (by rw [written]; rfl)) outside
  · rw [shape]
  · rw [shape]
    rfl

end Bus

namespace Hart

variable {hart : Hart} {bus : Bus δ}

/-- The hart after a load of the value: its register has the value, unless it is register zero, the
program counter is at the next instruction, and nothing else has changed. -/
structure Loads (before : Hart) (rd : Reg) (value : UInt64) (after : Hart) : Prop where
  whole : after = (before.set rd value).advance
  register : rd ≠ Reg.zero → after.get rd = value
  others : ∀ r, r ≠ rd → after.get r = before.get r
  pc : after.pc = before.pc + 4
  csrs : after.csrs = before.csrs

theorem loads_set (hart : Hart) (rd : Reg) (value : UInt64) :
    hart.Loads rd value (hart.set rd value).advance where
  whole := rfl
  register nonzero := hart.registers.get_set_same nonzero value
  others _ distinct := hart.registers.get_set_ne distinct value
  pc := rfl
  csrs := rfl

theorem execute_load {form : LoadForm} (rd : Reg) {rs1 : Reg} {imm : Int}
    (inside : bus.ram.Holds (hart.address rs1 imm) form.width.bytes) :
    ∃ bytes, bytes.length = form.width.bytes ∧ bus.ram.Spells (hart.address rs1 imm) bytes ∧
      hart.execute bus (.load form rd rs1 imm) =
        ⟨.ok .next, (hart.set rd (UInt64.ofInt (form.valueOf bytes))).advance, bus, []⟩ := by
  obtain ⟨bytes, length, spelled, found⟩ := Memory.read?_of_holds inside
  refine ⟨bytes, length, spelled, ?_⟩
  simp only [execute, executeLoad, Bus.read, found, form.extend_eq_ofInt length]

theorem execute_store {width : Width} {rs1 : Reg} (rs2 : Reg) {imm : Int}
    (inside : bus.ram.Holds (hart.address rs1 imm) width.bytes) :
    ∃ ram, bus.ram.write? (hart.address rs1 imm) width (hart.get rs2) = some ram ∧
      hart.execute bus (.store width rs1 rs2 imm) =
        ⟨.ok .next, hart.advance, { bus with ram := ram }, []⟩ := by
  obtain ⟨ram, written⟩ := Option.isSome_iff_exists.mp
    ((bus.ram.write?_isSome_iff _ width (hart.get rs2)).mpr inside)
  refine ⟨ram, written, ?_⟩
  simp only [execute, executeStore, Bus.write, Memory.write?_masked, written]

/-- The instruction that the next step executes. -/
def instruction? (hart : Hart) (bus : Bus δ) : Option Instruction :=
  (hart.fetched? bus).bind Instruction.ofWord?

/-- What an instruction stores in RAM. -/
def storeOf? (hart : Hart) (ram : Memory) : Instruction → Option Store
  | .store width rs1 rs2 imm =>
      if ram.contains (hart.address rs1 imm) width.bytes then
        some ⟨hart.address rs1 imm, width, hart.get rs2⟩
      else none
  | _ => none

/-- What the next step stores in RAM. -/
def stored? (hart : Hart) (bus : Bus δ) : Option Store :=
  (hart.instruction? bus).bind (hart.storeOf? bus.ram)

theorem execute_ram (hart : Hart) (bus : Bus δ) (instruction : Instruction) (position : Nat) :
    (hart.execute bus instruction).bus.ram.at? position =
      ((hart.storeOf? bus.ram instruction).bind (·.byteAt? position)).or
        (bus.ram.at? position) := by
  cases instruction with
  | load form rd rs1 imm =>
      have kept := bus.read_ram (hart.address rs1 imm) form.width .read
      simp only [execute, executeLoad]
      split <;> rw [kept] <;> rfl
  | store width rs1 rs2 imm =>
      by_cases inside : bus.ram.Holds (hart.address rs1 imm) width.bytes
      · have contained := (bus.ram.offset?_isSome_iff _ _).mpr inside
        obtain ⟨ram, written, done⟩ := execute_store rs2 inside
        simp only [done, storeOf?, Memory.contains, contained, if_true, Option.bind_some]
        exact Memory.write?_at? written position
      · have apart := mt (bus.ram.offset?_isSome_iff _ _).mp inside
        have kept := Bus.write_ram inside (hart.get rs2 &&& width.mask)
        simp only [execute, executeStore, storeOf?, Memory.contains, apart]
        split <;> rw [kept] <;> rfl
  | ecall =>
      simp only [execute, executeEnvironmentCall]
      split <;> rfl
  | lui | auipc | jal | jalr | branch | opImm | op | fence | ebreak | mret | csr => rfl

/-- A step executes its instruction on what the fetch leaves of the bus. -/
theorem step_of_instruction {instruction : Instruction}
    (found : hart.instruction? bus = some instruction) :
    let done := hart.execute (bus.read hart.pc .word .fetch).bus instruction
    (hart.step bus).result = done.result ∧ (hart.step bus).hart = done.hart ∧
      (hart.step bus).bus = done.bus := by
  obtain ⟨word, fetched, decoded⟩ := Option.bind_eq_some_iff.mp found
  obtain ⟨value, answer, rfl⟩ := Option.map_eq_some_iff.mp fetched
  simp [step_of_fetch (ok_of_toOption answer), executeWord, decoded]

/-- A step that finds no instruction fails, and only its fetch can have served anything. -/
theorem step_of_no_instruction (missing : hart.instruction? bus = none) :
    ∃ fault, (hart.step bus).toCompletion =
      ⟨.error fault, hart, (bus.read hart.pc .word .fetch).bus,
        (bus.read hart.pc .word .fetch).output⟩ := by
  obtain ⟨_, _, refused⟩ | ⟨_, _, _, invalid⟩ | ⟨_, _, _, fetched, decoded, _⟩ :=
    hart.step_cases bus
  · exact ⟨_, (step_error refused).1⟩
  · exact ⟨_, (step_error invalid).1⟩
  · simp [instruction?, fetched, decoded] at missing

/-- A step leaves every byte of RAM but those that it stores. -/
theorem step_ram (hart : Hart) (bus : Bus δ) (position : Nat) :
    (hart.step bus).bus.ram.at? position =
      ((hart.stored? bus).bind (·.byteAt? position)).or (bus.ram.at? position) := by
  have fetched := bus.read_ram hart.pc .word .fetch
  cases found : hart.instruction? bus with
  | none =>
      obtain ⟨_, failed⟩ := step_of_no_instruction found
      have kept : (hart.step bus).bus.ram = bus.ram :=
        (congrArg (·.bus.ram) failed).trans fetched
      rw [kept, stored?, found]
      rfl
  | some instruction =>
      rw [(step_of_instruction found).2.2, execute_ram, fetched, stored?, found, Option.bind_some]

end Hart

/-- A hart and a bus that are about to make a step. -/
structure Moment (δ : Type) where
  hart : Hart
  bus : Bus δ

namespace Moment

def step (moment : Moment δ) : Step δ :=
  moment.hart.step moment.bus

def stored? (moment : Moment δ) : Option Store :=
  moment.hart.stored? moment.bus

/-- Steps, each of which finds RAM as the one before left it.  Between them the hart and the devices
may change. -/
def Carry (ram : Memory) : List (Moment δ) → Prop
  | [] => True
  | moment :: rest => moment.bus.ram = ram ∧ Carry moment.step.bus.ram rest

/-- The next moment, when nothing happens between the steps. -/
def next (moment : Moment δ) : Moment δ :=
  ⟨moment.step.hart, moment.step.bus⟩

/-- A moment and those that follow it, step after step. -/
def onward (moment : Moment δ) : (count : Nat) → List (Moment δ)
  | 0 => []
  | count + 1 => moment :: moment.next.onward count

theorem carry_onward (moment : Moment δ) (count : Nat) :
    Carry moment.bus.ram (moment.onward count) := by
  induction count generalizing moment with
  | zero => trivial
  | succ count ih => exact ⟨rfl, ih moment.next⟩

/-- A byte of RAM is the one that was last stored at its address, or the first one there. -/
theorem carry_at? {ram : Memory} {earlier later : List (Moment δ)} {moment : Moment δ}
    (carried : Carry ram (earlier ++ moment :: later)) (position : Nat) :
    moment.bus.ram.at? position =
      (Store.lastAt? (earlier.filterMap stored?) position).or (ram.at? position) := by
  induction earlier generalizing ram with
  | nil =>
      rw [carried.1]
      rfl
  | cons first rest ih =>
      obtain ⟨start, onward⟩ := carried
      have stepped : first.step.bus.ram.at? position =
          (first.stored?.bind (·.byteAt? position)).or (ram.at? position) := by
        rw [← start]
        exact Hart.step_ram first.hart first.bus position
      rw [ih onward, stepped]
      cases written : first.stored? with
      | none =>
          rw [List.filterMap_cons_none written]
          rfl
      | some store =>
          rw [List.filterMap_cons_some written, Store.lastAt?_cons, Option.or_assoc]
          rfl

/-- Loads and stores in RAM, each by itself and in a sequence of steps.  The minor opcode of a word
chooses the width, and of a load the extension.  A load extends the number that its bytes spell, a
store puts the low bytes of its register at its addresses, and a byte that is loaded in a sequence is
the last that was stored at its address, or the first if none was. -/
theorem loads_return_last_stores :
    (∀ (code : Nat) (form : LoadForm), LoadForm.ofFunct3? code = some form →
      form.width.bytes = 2 ^ (code % 4) ∧ (form.signed = true ↔ code < 3)) ∧
    (∀ (word : UInt32) (form : LoadForm) (rd rs1 : Reg) (imm : Int),
      Instruction.ofWord? word = some (.load form rd rs1 imm) →
        form.width.bytes = 2 ^ (Word.funct3 word % 4) ∧
          (form.signed = true ↔ Word.funct3 word < 3)) ∧
    (∀ (word : UInt32) (width : Width) (rs1 rs2 : Reg) (imm : Int),
      Instruction.ofWord? word = some (.store width rs1 rs2 imm) →
        width.bytes = 2 ^ Word.funct3 word) ∧
    (∀ (hart : Hart) (bus : Bus δ) (form : LoadForm) (rd rs1 : Reg) (imm : Int),
      bus.ram.Holds (hart.address rs1 imm) form.width.bytes →
        ∃ bytes after, bytes.length = form.width.bytes ∧
          bus.ram.Spells (hart.address rs1 imm) bytes ∧
          hart.execute bus (.load form rd rs1 imm) = ⟨.ok .next, after, bus, []⟩ ∧
          hart.Loads rd (UInt64.ofInt (form.valueOf bytes)) after) ∧
    (∀ (hart : Hart) (bus : Bus δ) (width : Width) (rs1 rs2 : Reg) (imm : Int),
      bus.ram.Holds (hart.address rs1 imm) width.bytes →
        ∃ ram, hart.execute bus (.store width rs1 rs2 imm) =
            ⟨.ok .next, { hart with pc := hart.pc + 4 }, { bus with ram := ram }, []⟩ ∧
          ram.base = bus.ram.base ∧ ram.size = bus.ram.size ∧
          ∀ position, ram.at? position =
            ((Store.mk (hart.address rs1 imm) width (hart.get rs2)).byteAt? position).or
              (bus.ram.at? position)) ∧
    ∀ (ram : Memory) (earlier later : List (Moment δ)) (moment : Moment δ) (form : LoadForm)
      (rd rs1 : Reg) (imm : Int),
      Carry ram (earlier ++ moment :: later) →
      moment.hart.instruction? moment.bus = some (.load form rd rs1 imm) →
      moment.bus.ram.Holds (moment.hart.address rs1 imm) form.width.bytes →
        ∃ bytes, bytes.length = form.width.bytes ∧
          (∀ i < form.width.bytes,
            let position := (moment.hart.address rs1 imm).toNat + i
            bytes[i]? =
              (Store.lastAt? (earlier.filterMap stored?) position).or (ram.at? position)) ∧
          moment.step.result = .ok .next ∧
          moment.hart.Loads rd (UInt64.ofInt (form.valueOf bytes)) moment.step.hart := by
  refine ⟨fun _ _ => LoadForm.of_minor, ?_, ?_, ?_, ?_, ?_⟩
  · intro word form rd rs1 imm decoded
    exact LoadForm.of_minor (Instruction.hasMinor_of_ofWord? decoded)
  · intro word width rs1 rs2 imm decoded
    exact Width.of_minor (Instruction.hasMinor_of_ofWord? decoded)
  · intro hart bus form rd rs1 imm inside
    obtain ⟨bytes, length, spelled, done⟩ := Hart.execute_load rd inside
    exact ⟨bytes, _, length, spelled, done, hart.loads_set rd _⟩
  · intro hart bus width rs1 rs2 imm inside
    obtain ⟨ram, written, done⟩ := Hart.execute_store rs2 inside
    obtain ⟨base, size⟩ := Memory.write?_place written
    exact ⟨ram, done, base, size, Memory.write?_at? written⟩
  · intro ram earlier later moment form rd rs1 imm carried loads inside
    have fetched := moment.bus.read_ram moment.hart.pc .word .fetch
    obtain ⟨result, hart, _⟩ := Hart.step_of_instruction loads
    rw [← fetched] at inside
    obtain ⟨bytes, length, spelled, done⟩ := Hart.execute_load rd inside
    rw [done] at result hart
    refine ⟨bytes, length, ?_, result, ?_⟩
    · intro i bound position
      rw [← spelled i (length ▸ bound), fetched]
      exact carry_at? carried position
    · change moment.hart.Loads rd _ (moment.hart.step moment.bus).hart
      rw [hart]
      exact moment.hart.loads_set rd _

/-- A board about to store a word, then its low half one byte further on, and to load the whole. -/
def overlapping : Moment Peripheral where
  hart :=
    { registers := (({} : Registers).set Reg.a0 Hart.resetVector).set Reg.a7 0xC4332211
      pc := Hart.resetVector }
  bus :=
    { ram := ((Memory.new Hart.resetVector 64).load? Hart.resetVector
        ([0x03152023, 0x031510A3, 0x02052883].flatMap LittleEndian.wordBytes)).getD
          (Memory.new Hart.resetVector 64)
      devices := Peripheral.defaults }

theorem overlapping_stores_are_loaded :
    let last := overlapping.next.next
    last.hart.instruction? last.bus = some (.load ⟨.word, true⟩ Reg.a7 Reg.a0 32) ∧
      last.bus.ram.Holds (last.hart.address Reg.a0 32) 4 ∧
      [overlapping, overlapping.next].filterMap stored? =
        [⟨0x80000020, .word, 0xC4332211⟩, ⟨0x80000021, .half, 0xC4332211⟩] ∧
      last.step.result = .ok .next ∧ last.step.hart.get Reg.a7 = 0xFFFFFFFFC4221111 := by
  intro last
  have loads : last.hart.instruction? last.bus = some (.load ⟨.word, true⟩ Reg.a7 Reg.a0 32) := by
    decide +kernel
  have inside : last.bus.ram.Holds (last.hart.address Reg.a0 32) 4 := by
    unfold Memory.Holds
    decide +kernel
  have stores : [overlapping, overlapping.next].filterMap stored? =
      [⟨0x80000020, .word, 0xC4332211⟩, ⟨0x80000021, .half, 0xC4332211⟩] := by
    decide +kernel
  have start : (last.hart.address Reg.a0 32).toNat = 0x80000020 := by decide +kernel
  obtain ⟨_, _, _, _, _, run⟩ := loads_return_last_stores (δ := Peripheral)
  obtain ⟨bytes, length, contents, result, left⟩ :=
    run _ [overlapping, overlapping.next] [] last _ _ _ _ (overlapping.carry_onward 3) loads inside
  rw [stores, start] at contents
  have stored : ∀ i < 4, (Store.lastAt? [⟨0x80000020, .word, 0xC4332211⟩,
      ⟨0x80000021, .half, 0xC4332211⟩] (0x80000020 + i)) = [0x11, 0x11, 0x22, 0xC4][i]? := by
    decide
  obtain rfl : bytes = [0x11, 0x11, 0x22, 0xC4] := by
    refine List.ext_getElem length fun i before after => ?_
    have found := contents i (length ▸ before)
    simp only [stored i after, List.getElem?_eq_getElem before, List.getElem?_eq_getElem after,
      Option.some_or, Option.some.injEq] at found
    exact found
  exact ⟨loads, inside, stores, result, left.register (by decide)⟩

end Moment

end HartScope
