import HartScope.Proofs.Isa.InstructionSet
import HartScope.Proofs.Isa.TwosComplement

/-!
The instruction formats as encodings.  A format tiles the word, from bit zero up, with fields and
with pieces of its immediate.  Taking a word apart and putting it together are inverse to each
other, for every immediate that the format can hold.
-/

namespace HartScope

/-- What a part of a word holds.  A piece of the immediate is known by its lowest bit. -/
inductive Part where
  | opcode
  | rd
  | funct3
  | rs1
  | rs2
  | funct7
  | immediate (low : Nat)
deriving DecidableEq, Repr

namespace Format

/-- The parts of a word with their lengths, the one at bit zero first. -/
def layout : Format → List (Nat × Part)
  | r => [(7, .opcode), (5, .rd), (3, .funct3), (5, .rs1), (5, .rs2), (7, .funct7)]
  | i => [(7, .opcode), (5, .rd), (3, .funct3), (5, .rs1), (12, .immediate 0)]
  | s =>
      [(7, .opcode), (5, .immediate 0), (3, .funct3), (5, .rs1), (5, .rs2), (7, .immediate 5)]
  | b =>
      [(7, .opcode), (1, .immediate 11), (4, .immediate 1), (3, .funct3), (5, .rs1), (5, .rs2),
        (6, .immediate 5), (1, .immediate 12)]
  | u => [(7, .opcode), (5, .rd), (20, .immediate 12)]
  | j =>
      [(7, .opcode), (5, .rd), (8, .immediate 12), (1, .immediate 11), (10, .immediate 1),
        (1, .immediate 20)]

/-- The opcodes whose words have the format, all their parts included. -/
def opcodes : Format → List Opcode
  | r => [.op, .op32]
  | i => [.opImm, .opImm32, .load, .jalr]
  | s => [.store]
  | b => [.branch]
  | u => [.lui, .auipc]
  | j => [.jal]

def parts (format : Format) : List Part :=
  format.layout.map Prod.snd

/-- The immediates that the format can hold. -/
def Represents (format : Format) (imm : Int) : Prop :=
  match format with
  | r => imm = 0
  | i | s => -2 ^ 11 ≤ imm ∧ imm < 2 ^ 11
  | b => -2 ^ 12 ≤ imm ∧ imm < 2 ^ 12 ∧ imm % 2 = 0
  | u => -2 ^ 31 ≤ imm ∧ imm < 2 ^ 31 ∧ imm % 2 ^ 12 = 0
  | j => -2 ^ 20 ≤ imm ∧ imm < 2 ^ 20 ∧ imm % 2 = 0

instance (format : Format) (imm : Int) : Decidable (format.Represents imm) :=
  match format with
  | r => inferInstanceAs (Decidable (_ = _))
  | i | s | b | u | j => inferInstanceAs (Decidable (_ ∧ _))

end Format

/-- The low `length` bits of what the fields have for a part. -/
def Fields.part (fields : Fields) (length : Nat) : Part → Nat
  | .opcode => fields.opcode % 2 ^ length
  | .rd => fields.rd.val % 2 ^ length
  | .funct3 => fields.funct3 % 2 ^ length
  | .rs1 => fields.rs1.val % 2 ^ length
  | .rs2 => fields.rs2.val % 2 ^ length
  | .funct7 => fields.funct7 % 2 ^ length
  | .immediate low => (fields.imm / 2 ^ low % 2 ^ length).toNat

/-- The fields are the same in everything that the format holds. -/
structure Format.Agree (format : Format) (first second : Fields) : Prop where
  opcode : first.opcode = second.opcode
  rd : .rd ∈ format.parts → first.rd = second.rd
  funct3 : .funct3 ∈ format.parts → first.funct3 = second.funct3
  rs1 : .rs1 ∈ format.parts → first.rs1 = second.rs1
  rs2 : .rs2 ∈ format.parts → first.rs2 = second.rs2
  funct7 : .funct7 ∈ format.parts → first.funct7 = second.funct7
  imm : first.imm = second.imm

namespace Word

/-- Puts values side by side, each cut to its length, the first at the low end. -/
def pack : List (Nat × Nat) → Nat
  | [] => 0
  | (length, value) :: rest => value % 2 ^ length + 2 ^ length * pack rest

/-- Adjacent fields of a word from bit `start` on. -/
def fieldsFrom (word : UInt32) : (start : Nat) → List Nat → List Nat
  | _, [] => []
  | start, length :: rest => field word start length :: fieldsFrom word (start + length) rest

end Word

/-- The word of the format with these fields. -/
def Format.encode (format : Format) (fields : Fields) : UInt32 :=
  UInt32.ofNat (Word.pack (format.layout.map fun (length, part) =>
    (length, fields.part length part)))

namespace Word

variable {word : UInt32}

theorem pack_lt (parts : List (Nat × Nat)) : pack parts < 2 ^ (parts.map Prod.fst).sum := by
  induction parts with
  | nil => decide
  | cons head rest ih =>
      obtain ⟨length, value⟩ := head
      have low : value % 2 ^ length < 2 ^ length := Nat.mod_lt _ (Nat.two_pow_pos length)
      have high := Nat.mul_le_mul_left (2 ^ length) ih
      rw [Nat.succ_eq_add_one, Nat.mul_add] at high
      simp only [pack, List.map_cons, List.sum_cons, Nat.pow_add]
      omega

theorem field_eq (word : UInt32) (low length : Nat) :
    field word low length = word.toNat / 2 ^ low % 2 ^ length := by
  rw [field, Nat.one_shiftLeft, Nat.shiftRight_eq_div_pow]

theorem field_append (word : UInt32) (low first second : Nat) :
    field word low (first + second) =
      field word low first + 2 ^ first * field word (low + first) second := by
  rw [field_eq, field_eq, field_eq, Nat.pow_add, Nat.mod_mul, Nat.div_div_eq_div_mul, ← Nat.pow_add]

theorem fieldsFrom_of_pack {start : Nat} {parts : List (Nat × Nat)}
    (packed : word.toNat / 2 ^ start = pack parts) :
    fieldsFrom word start (parts.map Prod.fst) = parts.map fun part => part.2 % 2 ^ part.1 := by
  induction parts generalizing start with
  | nil => rfl
  | cons head rest ih =>
      obtain ⟨length, value⟩ := head
      rw [pack] at packed
      have first : field word start length = value % 2 ^ length := by
        rw [field_eq, packed, Nat.add_mul_mod_self_left, Nat.mod_mod]
      have others : word.toNat / 2 ^ (start + length) = pack rest := by
        rw [Nat.pow_add, ← Nat.div_div_eq_div_mul, packed,
          Nat.add_mul_div_left _ _ (Nat.two_pow_pos length),
          Nat.div_eq_of_lt (Nat.mod_lt _ (Nat.two_pow_pos length)), Nat.zero_add]
      rw [List.map_cons, List.map_cons, fieldsFrom, first, ih others]

theorem pack_fieldsFrom (start : Nat) (lengths : List Nat) :
    pack (lengths.zip (fieldsFrom word start lengths)) = field word start lengths.sum := by
  induction lengths generalizing start with
  | nil => rw [List.sum_nil, field_eq, Nat.pow_zero, Nat.mod_one]; rfl
  | cons length rest ih =>
      have cut : field word start length % 2 ^ length = field word start length := by
        rw [field_eq, Nat.mod_mod]
      rw [fieldsFrom, List.zip_cons_cons, pack, ih, cut, List.sum_cons, field_append]

end Word

namespace Format

variable {format : Format} {opcode : Opcode} {word : UInt32}

theorem format_of_mem_opcodes (member : opcode ∈ format.opcodes) : opcode.format = format := by
  cases format <;> simp only [opcodes, List.mem_cons, List.not_mem_nil, or_false] at member <;>
    rcases member with rfl | rfl | rfl | rfl <;> rfl

theorem layout_length (format : Format) : (format.layout.map Prod.fst).sum = 32 := by
  cases format <;> rfl

theorem ofWord_imm (member : opcode ∈ format.opcodes) (major : Word.opcode word = opcode.bits) :
    (Fields.ofWord word).imm = Word.immediate format word := by
  simp only [Fields.ofWord, major, Opcode.ofBits?_bits, format_of_mem_opcodes member]

end Format

namespace Word

/-! Where each immediate keeps its bits, and which numbers it can be. -/

variable (word : UInt32)

theorem immI_pieces :
    Format.i.Represents (immI word) ∧ immI word / 2 ^ 0 % 2 ^ 12 = field word 20 12 := by
  have whole : field word 20 12 < 2 ^ 12 := field_lt word 20 12
  simp only [Format.Represents, immI, signed]
  split <;> omega

theorem immS_pieces :
    Format.s.Represents (immS word) ∧
      immS word / 2 ^ 0 % 2 ^ 5 = field word 7 5 ∧ immS word / 2 ^ 5 % 2 ^ 7 = field word 25 7 := by
  have low : field word 7 5 < 2 ^ 5 := field_lt word 7 5
  have high : field word 25 7 < 2 ^ 7 := field_lt word 25 7
  simp only [Format.Represents, immS, signed]
  split <;> omega

theorem immB_pieces :
    Format.b.Represents (immB word) ∧
      immB word / 2 ^ 11 % 2 ^ 1 = field word 7 1 ∧ immB word / 2 ^ 1 % 2 ^ 4 = field word 8 4 ∧
      immB word / 2 ^ 5 % 2 ^ 6 = field word 25 6 ∧ immB word / 2 ^ 12 % 2 ^ 1 = field word 31 1 := by
  have low : field word 8 4 < 2 ^ 4 := field_lt word 8 4
  have middle : field word 25 6 < 2 ^ 6 := field_lt word 25 6
  have high : field word 7 1 < 2 ^ 1 := field_lt word 7 1
  have sign : field word 31 1 < 2 ^ 1 := field_lt word 31 1
  simp only [Format.Represents, immB, signed]
  split <;> omega

theorem immU_pieces :
    Format.u.Represents (immU word) ∧ immU word / 2 ^ 12 % 2 ^ 20 = field word 12 20 := by
  have whole : field word 12 20 < 2 ^ 20 := field_lt word 12 20
  simp only [Format.Represents, immU, signed]
  split <;> omega

theorem immJ_pieces :
    Format.j.Represents (immJ word) ∧
      immJ word / 2 ^ 12 % 2 ^ 8 = field word 12 8 ∧ immJ word / 2 ^ 11 % 2 ^ 1 = field word 20 1 ∧
      immJ word / 2 ^ 1 % 2 ^ 10 = field word 21 10 ∧ immJ word / 2 ^ 20 % 2 ^ 1 = field word 31 1 := by
  have low : field word 21 10 < 2 ^ 10 := field_lt word 21 10
  have middle : field word 20 1 < 2 ^ 1 := field_lt word 20 1
  have high : field word 12 8 < 2 ^ 8 := field_lt word 12 8
  have sign : field word 31 1 < 2 ^ 1 := field_lt word 31 1
  simp only [Format.Represents, immJ, signed]
  split <;> omega

end Word

namespace Format

variable {format : Format} {opcode : Opcode} {word : UInt32}

theorem immediate_represented (format : Format) (word : UInt32) :
    format.Represents (Word.immediate format word) := by
  cases format with
  | r => rfl
  | i => exact (Word.immI_pieces word).1
  | s => exact (Word.immS_pieces word).1
  | b => exact (Word.immB_pieces word).1
  | u => exact (Word.immU_pieces word).1
  | j => exact (Word.immJ_pieces word).1

theorem part_immediate (fields : Fields) (length low : Nat) :
    (fields.part length (.immediate low) : Int) = fields.imm / 2 ^ low % 2 ^ length := by
  have positive : (0 : Int) < 2 ^ length := Int.pow_pos (by decide)
  exact Int.toNat_of_nonneg (Int.emod_nonneg _ (by omega))

theorem part_of_piece {imm : Int} {length low value : Nat} (decoded : (Fields.ofWord word).imm = imm)
    (piece : imm / 2 ^ low % 2 ^ length = value) :
    (Fields.ofWord word).part length (.immediate low) = value := by
  rw [← Int.ofNat_inj, part_immediate, decoded, piece]

/-- The decoder finds each part where the layout has it. -/
theorem fieldsFrom_layout (member : opcode ∈ format.opcodes)
    (major : Word.opcode word = opcode.bits) :
    Word.fieldsFrom word 0 (format.layout.map Prod.fst) =
      format.layout.map fun (length, part) => (Fields.ofWord word).part length part := by
  have cut (low length : Nat) :
      Word.field word low length % 2 ^ length = Word.field word low length := by
    rw [Word.field_eq, Nat.mod_mod]
  have opcode : (Fields.ofWord word).part 7 .opcode = Word.field word 0 7 := cut 0 7
  have rd : (Fields.ofWord word).part 5 .rd = Word.field word 7 5 := cut 7 5
  have funct3 : (Fields.ofWord word).part 3 .funct3 = Word.field word 12 3 := cut 12 3
  have rs1 : (Fields.ofWord word).part 5 .rs1 = Word.field word 15 5 := cut 15 5
  have rs2 : (Fields.ofWord word).part 5 .rs2 = Word.field word 20 5 := cut 20 5
  have funct7 : (Fields.ofWord word).part 7 .funct7 = Word.field word 25 7 := cut 25 7
  have imm := ofWord_imm member major
  cases format with
  | r =>
      simp only [layout, List.map_cons, List.map_nil, Word.fieldsFrom, Nat.reduceAdd, opcode, rd,
        funct3, rs1, rs2, funct7]
  | i =>
      have whole := part_of_piece imm (Word.immI_pieces word).2
      simp only [layout, List.map_cons, List.map_nil, Word.fieldsFrom, Nat.reduceAdd, opcode, rd,
        funct3, rs1, whole]
  | s =>
      obtain ⟨_, low, high⟩ := Word.immS_pieces word
      simp only [layout, List.map_cons, List.map_nil, Word.fieldsFrom, Nat.reduceAdd, opcode,
        funct3, rs1, rs2, part_of_piece imm low, part_of_piece imm high]
  | b =>
      obtain ⟨_, high, low, middle, sign⟩ := Word.immB_pieces word
      simp only [layout, List.map_cons, List.map_nil, Word.fieldsFrom, Nat.reduceAdd, opcode,
        funct3, rs1, rs2, part_of_piece imm low, part_of_piece imm middle, part_of_piece imm high,
        part_of_piece imm sign]
  | u =>
      have whole := part_of_piece imm (Word.immU_pieces word).2
      simp only [layout, List.map_cons, List.map_nil, Word.fieldsFrom, Nat.reduceAdd, opcode, rd,
        whole]
  | j =>
      obtain ⟨_, high, middle, low, sign⟩ := Word.immJ_pieces word
      simp only [layout, List.map_cons, List.map_nil, Word.fieldsFrom, Nat.reduceAdd, opcode, rd,
        part_of_piece imm low, part_of_piece imm middle, part_of_piece imm high,
        part_of_piece imm sign]

/-- Two immediates of the format are equal if all their pieces are. -/
theorem represented_ext {first second : Fields} (left : format.Represents first.imm)
    (right : format.Represents second.imm)
    (same : ∀ entry ∈ format.layout, first.part entry.1 entry.2 = second.part entry.1 entry.2) :
    first.imm = second.imm := by
  have piece {length low : Nat} (member : (length, .immediate low) ∈ format.layout) :
      first.imm / 2 ^ low % 2 ^ length = second.imm / 2 ^ low % 2 ^ length := by
    rw [← part_immediate, ← part_immediate, same _ member]
  cases format with
  | r => exact left.trans right.symm
  | i =>
      have whole := @piece 12 0 (by decide)
      simp only [Represents] at left right
      omega
  | s =>
      have low := @piece 5 0 (by decide)
      have high := @piece 7 5 (by decide)
      simp only [Represents] at left right
      omega
  | b =>
      have low := @piece 4 1 (by decide)
      have middle := @piece 6 5 (by decide)
      have high := @piece 1 11 (by decide)
      have sign := @piece 1 12 (by decide)
      have digits (imm : Int) : imm % 2 ^ 13 =
          imm % 2 + 2 * (imm / 2 ^ 1 % 2 ^ 4) + 2 ^ 5 * (imm / 2 ^ 5 % 2 ^ 6) +
            2 ^ 11 * (imm / 2 ^ 11 % 2 ^ 1) + 2 ^ 12 * (imm / 2 ^ 12 % 2 ^ 1) := by
        omega
      have total : first.imm % 2 ^ 13 = second.imm % 2 ^ 13 := by
        rw [digits, digits second.imm, low, middle, high, sign, left.2.2, right.2.2]
      simp only [Represents] at left right
      omega
  | u =>
      have whole := @piece 20 12 (by decide)
      simp only [Represents] at left right
      omega
  | j =>
      have low := @piece 10 1 (by decide)
      have middle := @piece 1 11 (by decide)
      have high := @piece 8 12 (by decide)
      have sign := @piece 1 20 (by decide)
      have digits (imm : Int) : imm % 2 ^ 21 =
          imm % 2 + 2 * (imm / 2 ^ 1 % 2 ^ 10) + 2 ^ 11 * (imm / 2 ^ 11 % 2 ^ 1) +
            2 ^ 12 * (imm / 2 ^ 12 % 2 ^ 8) + 2 ^ 20 * (imm / 2 ^ 20 % 2 ^ 1) := by
        omega
      have total : first.imm % 2 ^ 21 = second.imm % 2 ^ 21 := by
        rw [digits, digits second.imm, low, middle, high, sign, left.2.2, right.2.2]
      simp only [Represents] at left right
      omega

/-- A word whose opcode belongs to the format is the encoding of its own fields. -/
theorem encode_ofWord (member : opcode ∈ format.opcodes)
    (major : Word.opcode word = opcode.bits) : format.encode (Fields.ofWord word) = word := by
  have parts := @Word.pack_fieldsFrom word 0 (format.layout.map Prod.fst)
  rw [fieldsFrom_layout member major, List.zip_map', layout_length, Word.field_whole] at parts
  rw [encode]
  exact (congrArg UInt32.ofNat parts).trans (UInt32.ofNat_toNat ..)

theorem represented_bounds {imm : Int} (represented : format.Represents imm) :
    -2 ^ 31 ≤ imm ∧ imm < 2 ^ 31 := by
  cases format <;> simp only [Represents] at represented <;> omega

theorem part_cut (fields : Fields) (length : Nat) (part : Part) :
    fields.part length part % 2 ^ length = fields.part length part := by
  cases part with
  | immediate low =>
      rw [← Int.ofNat_inj, Int.natCast_emod, part_immediate, Int.natCast_pow]
      exact Int.emod_emod ..
  | opcode | rd | funct3 | rs1 | rs2 | funct7 => exact Nat.mod_mod _ _

/-- The parts of an encoding are those of its fields. -/
theorem fieldsFrom_encode (format : Format) (fields : Fields) :
    Word.fieldsFrom (format.encode fields) 0 (format.layout.map Prod.fst) =
      format.layout.map fun (length, part) => fields.part length part := by
  let packed := format.layout.map fun (length, part) => (length, fields.part length part)
  have lengths : packed.map Prod.fst = format.layout.map Prod.fst := List.map_map ..
  have small : Word.pack packed < 2 ^ 32 := by
    rw [← layout_length format, ← lengths]
    exact Word.pack_lt packed
  have word : (format.encode fields).toNat / 2 ^ 0 = Word.pack packed := by
    rw [Nat.pow_zero, Nat.div_one]
    exact UInt32.toNat_ofNat_of_lt' small
  rw [← lengths, Word.fieldsFrom_of_pack word, List.map_map]
  exact List.map_congr_left fun (length, part) _ => part_cut fields length part

theorem opcode_encode {fields : Fields} (small : fields.opcode < 2 ^ 7) :
    Word.opcode (format.encode fields) = fields.opcode := by
  obtain ⟨rest, layout⟩ : ∃ rest, format.layout = (7, .opcode) :: rest := by
    cases format <;> exact ⟨_, rfl⟩
  have same := fieldsFrom_encode format fields
  rw [layout] at same
  have first : Word.field (format.encode fields) 0 7 = fields.opcode % 2 ^ 7 := (List.cons.inj same).1
  exact first.trans (Nat.mod_eq_of_lt small)

/-- The fields of an encoding are those that were encoded. -/
theorem ofWord_encode (member : opcode ∈ format.opcodes) {fields : Fields}
    (major : fields.opcode = opcode.bits) (minor : fields.funct3 < 8) (selector : fields.funct7 < 128)
    (represented : format.Represents fields.imm) :
    format.Agree (Fields.ofWord (format.encode fields)) fields := by
  have small : fields.opcode < 2 ^ 7 := by
    rw [major]
    cases opcode <;> decide
  have decoded : Word.opcode (format.encode fields) = opcode.bits := (opcode_encode small).trans major
  have same := fieldsFrom_encode format fields
  rw [fieldsFrom_layout member decoded] at same
  have reads {length : Nat} {part : Part} (entry : (length, part) ∈ format.layout) :
      (Fields.ofWord (format.encode fields)).part length part = fields.part length part :=
    List.map_inj_left.mp same (length, part) entry
  -- A part has one length in all the formats that hold it.
  have entry {length : Nat} {part : Part}
      (listed : ∀ format : Format, part ∈ format.parts → (length, part) ∈ format.layout)
      (present : part ∈ format.parts) :
      (Fields.ofWord (format.encode fields)).part length part = fields.part length part :=
    reads (listed format present)
  have register {first second : Reg} (cut : first.val % 2 ^ 5 = second.val % 2 ^ 5) :
      first = second := by
    have left := first.isLt
    have right := second.isLt
    exact Fin.ext (by omega)
  refine ⟨decoded.trans major.symm, ?_, ?_, ?_, ?_, ?_, ?_⟩
  · exact fun present => register (entry (by intro format; cases format <;> decide) present)
  · intro present
    have cut := @entry 3 .funct3 (by intro format; cases format <;> decide) present
    have below : (Fields.ofWord (format.encode fields)).funct3 < 2 ^ 3 := Word.field_lt _ 12 3
    simp only [Fields.part] at cut
    omega
  · exact fun present => register (entry (by intro format; cases format <;> decide) present)
  · exact fun present => register (entry (by intro format; cases format <;> decide) present)
  · intro present
    have cut := @entry 7 .funct7 (by intro format; cases format <;> decide) present
    have below : (Fields.ofWord (format.encode fields)).funct7 < 2 ^ 7 := Word.field_lt _ 25 7
    simp only [Fields.part] at cut
    omega
  · refine represented_ext ?_ represented fun (length, part) member => reads member
    rw [ofWord_imm member decoded]
    exact immediate_represented format _

/-- Taking words apart undoes putting them together, and the other way round.  The immediate that
comes out is one that the format can hold, and its word is its sign extension. -/
theorem decode_encode_inverse (member : opcode ∈ format.opcodes) :
    (∀ fields : Fields, fields.opcode = opcode.bits → fields.funct3 < 8 → fields.funct7 < 128 →
      format.Represents fields.imm →
        format.Agree (Fields.ofWord (format.encode fields)) fields ∧
          (UInt64.ofInt (Fields.ofWord (format.encode fields)).imm).toInt64.toInt = fields.imm) ∧
      ∀ word : UInt32, Word.opcode word = opcode.bits →
        format.encode (Fields.ofWord word) = word ∧
          format.Represents (Fields.ofWord word).imm := by
  constructor
  · intro fields major minor selector represented
    have agree := ofWord_encode member major minor selector represented
    obtain ⟨lower, upper⟩ := represented_bounds represented
    refine ⟨agree, ?_⟩
    rw [agree.imm]
    exact toInt_ofInt (by omega) (by omega)
  · intro word major
    refine ⟨encode_ofWord member major, ?_⟩
    rw [ofWord_imm member major]
    exact immediate_represented format word

/-- A branch backwards by four bytes, and its word. -/
theorem backward_branch_round_trip :
    let fields : Fields := ⟨0, Opcode.branch.bits, 0, 10, 11, 1, 0, -4⟩
    Opcode.branch ∈ b.opcodes ∧ b.Represents fields.imm ∧ b.encode fields = 0xFEB51EE3 ∧
      (Fields.ofWord 0xFEB51EE3).imm = -4 ∧ b.encode (Fields.ofWord 0xFEB51EE3) = 0xFEB51EE3 := by
  intro fields
  have member : Opcode.branch ∈ b.opcodes := by decide
  have represented : b.Represents fields.imm := by decide
  have word : b.encode fields = 0xFEB51EE3 := by decide
  obtain ⟨decodes, encodes⟩ := decode_encode_inverse member
  have agree := (decodes fields rfl (by decide) (by decide) represented).1
  rw [word] at agree
  exact ⟨member, represented, word, agree.imm, (encodes 0xFEB51EE3 (by decide)).1⟩

end Format

end HartScope
