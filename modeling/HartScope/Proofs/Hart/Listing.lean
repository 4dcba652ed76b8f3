import HartScope.Isa.Disassembly
import HartScope.Proofs.Hart.Decoding
import HartScope.Proofs.Isa.Assembly

/-!
Which words the listing knows, and which of them the hart executes.  The listing looks at fewer bits
than the hart, so what it does not know is invalid.  Of the invalid words it lists those that access
a CSR which the hart does not have, and reserved encodings of a jump and of the integer operations.
Of the other words a line, at its address, says all that they do.
-/

namespace HartScope

/-- What the listing asks of a word with the opcode. -/
def Opcode.Lists (word : UInt32) : Opcode → Prop
  | lui | auipc | jal | jalr | opImm | opImm32 | miscMem => True
  | branch => Word.funct3 word ∈ [0, 1, 4, 5, 6, 7]
  | load => Word.funct3 word ∈ [0, 1, 2, 3, 4, 5, 6]
  | store => Word.funct3 word ∈ [0, 1, 2, 3]
  | op | op32 =>
      Word.funct3 word ∈ [1, 2, 3, 4, 6, 7] ∨
        Word.funct3 word ∈ [0, 5] ∧ Word.funct7 word ∈ [0x00, 0x01, 0x20]
  | system =>
      Word.funct3 word ∈ [1, 2, 3, 5, 6, 7] ∨
        word ∈ [Instruction.ecallWord, Instruction.ebreakWord, Instruction.mretWord]

def Listed (word : UInt32) : Prop :=
  ∃ opcode, Opcode.ofBits? (Word.opcode word) = some opcode ∧ opcode.Lists word

namespace Disassembly

/-- The text begins as no unknown word does. -/
def Named (text : String) : Prop :=
  text.toList.head?.any (· != 'u')

instance (text : String) : Decidable (Named text) :=
  inferInstanceAs (Decidable (_ = true))

theorem head?_append {text : String} {letter : Char} (opening : text.toList.head? = some letter)
    (rest : String) : (text ++ rest).toList.head? = some letter := by
  rw [String.toList_append, List.head?_append, opening]
  rfl

theorem Named.append {text : String} (named : Named text) (rest : String) :
    Named (text ++ rest) := by
  obtain ⟨letter, opening, other⟩ := (Option.any_eq_true ..).mp named
  unfold Named
  rw [head?_append opening]
  exact other

theorem unknown_not_named (word : UInt32) : ¬Named (unknown word) := by
  have opening : (unknown word).toList.head? = some 'u' :=
    head?_append (head?_append (by decide +kernel) _) _
  rw [Named, opening]
  decide

theorem Named.ne_unknown {text : String} (named : Named text) (word : UInt32) :
    text ≠ unknown word := by
  rintro rfl
  exact unknown_not_named word named

/-- A table that has a mnemonic for some of the minor opcodes. -/
def Tabulates (table : Nat → Option String) (codes : List Nat) : Prop :=
  ∀ code < 8, ((table code).isSome ↔ code ∈ codes) ∧ ∀ text ∈ table code, Named text

instance (table : Nat → Option String) (codes : List Nat) : Decidable (Tabulates table codes) :=
  inferInstanceAs (Decidable (∀ code < 8, _))

theorem loadMnemonic?_tabulates : Tabulates loadMnemonic? [0, 1, 2, 3, 4, 5, 6] := by
  decide +kernel

theorem storeMnemonic?_tabulates : Tabulates storeMnemonic? [0, 1, 2, 3] := by
  decide +kernel

theorem branchMnemonic?_tabulates : Tabulates branchMnemonic? [0, 1, 4, 5, 6, 7] := by
  decide +kernel

theorem Tabulates.unknown_iff {table : Nat → Option String} {codes : List Nat}
    (tabulates : Tabulates table codes) {word : UInt32} {rendered : String}
    (absent : table (Word.funct3 word) = none → rendered = unknown word)
    (present : ∀ text, table (Word.funct3 word) = some text → Named text → Named rendered) :
    rendered = unknown word ↔ Word.funct3 word ∉ codes := by
  obtain ⟨known, named⟩ := tabulates _ (Word.field_lt word 12 3)
  change (table (Word.funct3 word)).isSome ↔ Word.funct3 word ∈ codes at known
  rw [← known]
  cases found : table (Word.funct3 word) with
  | none => simp [absent found]
  | some text =>
      exact iff_of_false ((present text found (named text found)).ne_unknown word) (by simp)

theorem multiplyMnemonic_named (code : Nat) : Named (multiplyMnemonic code) := by
  unfold multiplyMnemonic
  split <;> decide +kernel

theorem baseMnemonic?_named {code selector : Nat} {text : String}
    (found : baseMnemonic? code selector = some text) : Named text := by
  unfold baseMnemonic? at found
  split at found <;> cases found <;> decide +kernel

theorem registerMnemonic?_named {fields : Fields} {text : String}
    (found : registerMnemonic? fields = some text) : Named text := by
  unfold registerMnemonic? at found
  split at found
  · cases found
    exact multiplyMnemonic_named _
  · exact baseMnemonic?_named found

theorem registerMnemonic?_isSome {fields : Fields} (small : fields.funct3 < 8) :
    (registerMnemonic? fields).isSome ↔
      fields.funct3 ∈ [1, 2, 3, 4, 6, 7] ∨
        fields.funct3 ∈ [0, 5] ∧ fields.funct7 ∈ [0x00, 0x01, 0x20] := by
  unfold registerMnemonic?
  split
  · grind
  · unfold baseMnemonic?
    split <;> grind

theorem registerForm_unknown_iff {fields : Fields} (small : fields.funct3 < 8) (suffix : String) :
    registerForm fields suffix = unknown fields.raw ↔
      ¬(fields.funct3 ∈ [1, 2, 3, 4, 6, 7] ∨
        fields.funct3 ∈ [0, 5] ∧ fields.funct7 ∈ [0x00, 0x01, 0x20]) := by
  rw [← registerMnemonic?_isSome small, registerForm]
  cases found : registerMnemonic? fields with
  | none => simp
  | some mnemonic =>
      refine iff_of_false (Named.ne_unknown ?_ _) (by simp)
      -- Only what the template itself concatenates is taken apart, not the mnemonic.
      repeat with_reducible apply Named.append
      exact registerMnemonic?_named found

theorem immediateForm_named (fields : Fields) (suffix : String) :
    Named (immediateForm fields suffix) := by
  have right (arithmetic : Bool) : Named (if arithmetic then "srai" else "srli") := by
    cases arithmetic <;> decide +kernel
  unfold immediateForm
  dsimp only
  split <;> repeat with_reducible apply Named.append
  case h_8 => exact right _
  all_goals decide +kernel

/-- What a CSR instruction is called, by its minor opcode. -/
def csrMnemonics : List (Nat × String) :=
  [(1, "csrrw"), (2, "csrrs"), (3, "csrrc"), (5, "csrrwi"), (6, "csrrsi"), (7, "csrrci")]

/-- The source of a CSR instruction: a register, or from minor opcode four on the number in its place. -/
def csrSource (minor : Nat) (field : Reg) : String :=
  if minor < 4 then field.name else toString field.val

theorem csrForm_cases (fields : Fields) :
    csrForm fields = unknown fields.raw ∧ fields.funct3 ∉ [1, 2, 3, 5, 6, 7] ∨
      fields.funct3 ∈ [1, 2, 3, 5, 6, 7] ∧
        ∃ mnemonic, (fields.funct3, mnemonic) ∈ csrMnemonics ∧
          csrForm fields = s!"{mnemonic} {fields.rd.name}, {csrOperand fields.csr}, " ++
            csrSource fields.funct3 fields.rs1 := by
  unfold csrForm
  dsimp only
  split
  case h_7 => exact .inl ⟨rfl, by simp_all⟩
  all_goals
    rename_i minor
    rw [minor]
    exact .inr ⟨by decide, _, by simp [csrMnemonics], rfl⟩

theorem csrForm_unknown_iff (fields : Fields) :
    csrForm fields = unknown fields.raw ↔ fields.funct3 ∉ [1, 2, 3, 5, 6, 7] := by
  have named : ∀ entry ∈ csrMnemonics, Named entry.2 := by
    decide +kernel
  rcases csrForm_cases fields with ⟨unlisted, other⟩ | ⟨minor, text, member, rendered⟩
  · exact iff_of_true unlisted other
  · rw [rendered]
    refine iff_of_false (Named.ne_unknown ?_ _) (not_not_intro minor)
    repeat with_reducible apply Named.append
    exact named _ member

theorem system_unknown_iff (fields : Fields) :
    system fields = unknown fields.raw ↔
      fields.raw ∉ [Instruction.ecallWord, Instruction.ebreakWord, Instruction.mretWord] ∧
        fields.funct3 ∉ [1, 2, 3, 5, 6, 7] := by
  have named : ∀ text ∈ ["ecall", "ebreak", "mret"], Named text := by decide +kernel
  have listed {text : String} (member : text ∈ ["ecall", "ebreak", "mret"]) :
      text ≠ unknown fields.raw := (named text member).ne_unknown _
  unfold system
  split
  · rename_i word
    exact iff_of_false (listed (by simp)) (by simp [word, Instruction.ecallWord])
  · split
    · rename_i word
      exact iff_of_false (listed (by simp)) (by simp [word, Instruction.ebreakWord])
    · split
      · rename_i word
        exact iff_of_false (listed (by simp)) (by simp [word, Instruction.mretWord])
      · rw [csrForm_unknown_iff]
        simp_all [Instruction.ecallWord, Instruction.ebreakWord, Instruction.mretWord]

end Disassembly

/-- The listing knows a word by its fields, wherever the word stands. -/
theorem disassemble_eq_unknown_iff (pc : UInt64) (word : UInt32) :
    disassemble pc word = Disassembly.unknown word ↔ ¬Listed word := by
  open Disassembly in
  cases known : Opcode.ofBits? (Word.opcode word) with
  | none => simp [disassemble, ofFields, Fields.ofWord, Listed, known]
  | some opcode =>
      have small : Word.funct3 word < 8 := Word.field_lt word 12 3
      simp only [disassemble, ofFields, Fields.ofWord, Listed, known, Option.some.injEq,
        exists_eq_left']
      cases opcode with
      | op | op32 => exact registerForm_unknown_iff small _
      | system =>
          rw [system_unknown_iff, Opcode.Lists, not_or, and_comm]
      | opImm | opImm32 =>
          exact iff_of_false ((immediateForm_named _ _).ne_unknown _) (not_not_intro trivial)
      | load =>
          refine loadMnemonic?_tabulates.unknown_iff ?_ ?_
          · intro absent
            simp only [absent]
          · intro text found named
            simp only [found]
            repeat with_reducible apply Named.append
            exact named
      | store =>
          refine storeMnemonic?_tabulates.unknown_iff ?_ ?_
          · intro absent
            simp only [absent]
          · intro text found named
            simp only [found]
            repeat with_reducible apply Named.append
            exact named
      | branch =>
          refine branchMnemonic?_tabulates.unknown_iff ?_ ?_
          · intro absent
            simp only [absent]
          · intro text found named
            simp only [found]
            repeat with_reducible apply Named.append
            exact named
      | miscMem =>
          have fence : Named "fence" := by decide +kernel
          exact iff_of_false (fence.ne_unknown word) (not_not_intro trivial)
      | lui | auipc | jal | jalr =>
          refine iff_of_false (Named.ne_unknown ?_ _) (not_not_intro trivial)
          repeat with_reducible apply Named.append
          decide +kernel

/-- An access to a CSR that the hart does not have. -/
def UnknownCsrAccess (word : UInt32) : Prop :=
  Word.opcode word = Opcode.system.bits ∧ Word.funct3 word ∈ [1, 2, 3, 5, 6, 7] ∧
    ∀ csr ∈ Csr.all, csr.address ≠ Word.csr word

instance (word : UInt32) : Decidable (UnknownCsrAccess word) :=
  inferInstanceAs (Decidable (_ ∧ _ ∧ _))

/-- A reserved encoding whose mnemonic hangs on the two opcodes alone. -/
def LooselyListed (word : UInt32) : Prop :=
  ¬Documented word ∧
    (Word.opcode word ∈ [Opcode.jalr, .opImm, .opImm32].map Opcode.bits ∨
      Word.opcode word ∈ [Opcode.op, .op32].map Opcode.bits ∧ Word.funct3 word ∉ [0, 5])

instance (word : UInt32) : Decidable (LooselyListed word) :=
  inferInstanceAs (Decidable (_ ∧ _))

/-- The words that decode are listed, and so are two kinds of words that do not. -/
theorem ofWord?_isSome_iff_listed {word : UInt32} :
    (Instruction.ofWord? word).isSome ↔
      Listed word ∧ ¬UnknownCsrAccess word ∧ ¬LooselyListed word := by
  have documented : (Instruction.ofWord? word).isSome ↔ Documented word ∨ ReservedFence word :=
    Instruction.ofWord?_isSome_iff
  simp only [UnknownCsrAccess, LooselyListed, ReservedFence, Listed] at documented ⊢
  cases known : Opcode.ofBits? (Word.opcode word) with
  | none => simp [Instruction.ofWord?, Instruction.ofFields?, Fields.ofWord, known]
  | some opcode =>
      have small : Word.funct3 word < 8 := Word.field_lt word 12 3
      rw [← Opcode.bits_of_ofBits? known] at documented ⊢
      simp only [Opcode.bits_inj, List.mem_map, exists_eq_right, Option.some.injEq,
        exists_eq_left'] at documented ⊢
      cases opcode with
      | lui | auipc | jal | miscMem =>
          simp [Instruction.ofWord?, Instruction.ofFields?, Fields.ofWord, known, Opcode.Lists]
      | branch =>
          simp [Instruction.ofWord?, Instruction.ofFields?, Fields.ofWord, known, Opcode.Lists,
            Condition.ofFunct3?_isSome]
      | load =>
          simp [Instruction.ofWord?, Instruction.ofFields?, Fields.ofWord, known, Opcode.Lists,
            LoadForm.ofFunct3?_isSome]
      | store =>
          simp [Instruction.ofWord?, Instruction.ofFields?, Fields.ofWord, known, Opcode.Lists,
            Width.ofFunct3?_isSome]
      -- All of these are listed, and those that are not documented are listed loosely.
      | jalr | opImm | opImm32 => simp [documented, Opcode.Lists]
      | op | op32 =>
          simp only [Instruction.ofWord?, Instruction.ofFields?, Fields.ofWord, known,
            Option.bind_some, Instruction.ofRegister?, Option.isSome_map,
            AluOp.ofRegisterForm?_isSome, Opcode.Lists] at documented ⊢
          grind
      | system =>
          have minor := @Encoding.funct3_of_privileged word
          simp only [Instruction.ofWord?, Instruction.ofFields?, Fields.ofWord, known,
            Option.bind_some, Instruction.ofSystem?_isSome, Fields.csr, Opcode.Lists]
          grind

theorem UnknownCsrAccess.disassemble {word : UInt32} (access : UnknownCsrAccess word)
    (pc : UInt64) :
    ∃ mnemonic, (Word.funct3 word, mnemonic) ∈ Disassembly.csrMnemonics ∧
      disassemble pc word =
        s!"{mnemonic} {(Word.rd word).name}, {Numeral.hexPadded 3 (Word.csr word)}, " ++
          Disassembly.csrSource (Word.funct3 word) (Word.rs1 word) := by
  obtain ⟨opcode, minor, absent⟩ := access
  have known : Opcode.ofBits? (Word.opcode word) = some .system := by rw [opcode]; rfl
  have other : word ∉ [Instruction.ecallWord, Instruction.ebreakWord, Instruction.mretWord] := by
    intro privileged
    rw [Encoding.funct3_of_privileged privileged] at minor
    contradiction
  have nameless : Csr.ofAddress? (Word.csr word) = none := by
    rw [← Option.not_isSome_iff_eq_none, Csr.ofAddress?_isSome]
    rintro ⟨csr, member, same⟩
    exact absent csr member same
  have form : HartScope.disassemble pc word = Disassembly.csrForm (Fields.ofWord word) := by
    simp only [List.mem_cons, List.not_mem_nil, or_false, not_or] at other
    simp only [HartScope.disassemble, Disassembly.ofFields, Fields.ofWord, known]
    exact (if_neg other.1).trans ((if_neg other.2.1).trans (if_neg other.2.2))
  rcases Disassembly.csrForm_cases (Fields.ofWord word) with
    ⟨_, unlisted⟩ | ⟨_, mnemonic, member, text⟩
  · exact absurd minor unlisted
  · refine ⟨mnemonic, member, form.trans (text.trans ?_)⟩
    simp only [Disassembly.csrOperand, Fields.csr, Fields.ofWord, nameless]

namespace Hart

variable {δ : Type} [Device δ] {hart : Hart} {bus : Bus δ} {word : UInt32}

theorem step_invalid_iff_undecoded (fetched : hart.fetched? bus = some word) :
    (hart.step bus).result = .error (.invalidInstruction hart.pc word) ↔
      ¬(Instruction.ofWord? word).isSome := by
  rcases hart.step_cases bus with ⟨unfetched, _⟩ | ⟨found, answered, undecoded, invalid⟩ |
    ⟨found, instruction, after, answered, decoded, result, _⟩
  · rw [unfetched] at fetched
    cases fetched
  · cases fetched.symm.trans answered
    exact iff_of_true invalid (by simp [undecoded])
  · cases fetched.symm.trans answered
    refine iff_of_false ?_ (by simp [decoded])
    rw [result]
    rcases hart.execute_cases after instruction with
      ⟨retired, _⟩ | ⟨_, halted, _⟩ | ⟨_, _, trapped⟩ | ⟨_, _, _, refused⟩
    · simp [retired]
    · simp [halted]
    · simp [trapped]
    · simp [refused]

/-- What the listing does not know is invalid.  The other way round an invalid word is not known to
the listing unless it accesses a CSR that the hart does not have, which is listed as the access that
it is, with the number of the CSR; of the words that are listed loosely nothing is said. -/
theorem listing_agrees_with_step (fetched : hart.fetched? bus = some word) (pc : UInt64) :
    let Invalid := (hart.step bus).result = .error (.invalidInstruction hart.pc word)
    let Unlisted := disassemble pc word = Disassembly.unknown word
    (Unlisted → Invalid) ∧
      (¬LooselyListed word → (Invalid ↔ Unlisted ∨ UnknownCsrAccess word)) ∧
      (UnknownCsrAccess word → Invalid ∧
        ∃ mnemonic, (Word.funct3 word, mnemonic) ∈ Disassembly.csrMnemonics ∧
          disassemble pc word =
            s!"{mnemonic} {(Word.rd word).name}, {Numeral.hexPadded 3 (Word.csr word)}, " ++
              Disassembly.csrSource (Word.funct3 word) (Word.rs1 word)) := by
  intro Invalid Unlisted
  have unlisted : Unlisted ↔ ¬Listed word := disassemble_eq_unknown_iff pc word
  have invalid : Invalid ↔ ¬(Listed word ∧ ¬UnknownCsrAccess word ∧ ¬LooselyListed word) := by
    rw [← ofWord?_isSome_iff_listed]
    exact step_invalid_iff_undecoded fetched
  rw [invalid, unlisted]
  refine ⟨?_, ?_, ?_⟩
  · rintro unknown ⟨listed, _⟩
    exact unknown listed
  · intro strict
    grind
  · intro access
    exact ⟨fun known => known.2.1 access, access.disassemble pc⟩

/-- A read of the cycle counter. -/
def cycleWord : UInt32 := 0xC0002573

theorem cycleWord_fetched : (reset resetVector).fetched? (wordBus cycleWord) = some cycleWord := by
  decide +kernel

theorem cycleWord_listed : disassemble resetVector cycleWord = "csrrs a0, 0xc00, zero" := by
  decide +kernel

theorem zero_word_and_cycle_counter_are_invalid :
    ((reset resetVector).step (wordBus 0)).result = .error (.invalidInstruction resetVector 0) ∧
      disassemble resetVector 0 = "unknown (0x00000000)" ∧
      ((reset resetVector).step (wordBus cycleWord)).result =
        .error (.invalidInstruction resetVector cycleWord) ∧
      disassemble resetVector cycleWord = "csrrs a0, 0xc00, zero" := by
  have fetched : (reset resetVector).fetched? (wordBus 0) = some 0 := by decide +kernel
  have unknown : disassemble resetVector 0 = Disassembly.unknown 0 := by decide +kernel
  have spelled : Disassembly.unknown 0 = "unknown (0x00000000)" := by decide +kernel
  have absent : UnknownCsrAccess cycleWord := by decide +kernel
  have refused := (listing_agrees_with_step fetched resetVector).1 unknown
  have denied := (listing_agrees_with_step cycleWord_fetched resetVector).2.2 absent
  exact ⟨refused, unknown.trans spelled, denied.1, cycleWord_listed⟩

/-- The listing shows an instruction where the hart refuses the word. -/
theorem unknown_csr_is_listed :
    ¬∀ (hart : Hart) (bus : Bus Peripheral) (word : UInt32) (pc : UInt64),
      hart.fetched? bus = some word →
        (disassemble pc word = Disassembly.unknown word ↔
          (hart.step bus).result = .error (.invalidInstruction hart.pc word)) := by
  intro agree
  have undecoded : ¬(Instruction.ofWord? cycleWord).isSome := by decide
  have invalid := (step_invalid_iff_undecoded cycleWord_fetched).mpr undecoded
  have unlisted := (agree _ _ _ resetVector cycleWord_fetched).mpr invalid
  rw [cycleWord_listed] at unlisted
  exact absurd unlisted (by decide +kernel)

/-- Some hart does not reject the word as invalid. -/
def Accepted (word : UInt32) : Prop :=
  ∃ (hart : Hart) (bus : Bus Peripheral),
    (hart.executeWord bus word).result ≠ .error (.invalidInstruction hart.pc word)

theorem Accepted.decodes (accepted : Accepted word) : (Instruction.ofWord? word).isSome := by
  obtain ⟨hart, bus, valid⟩ := accepted
  cases decoded : Instruction.ofWord? word with
  | none => exact absurd (by simp [executeWord, decoded]) valid
  | some instruction => rfl

/-- Accepted words with the same line at an address do the same there. -/
theorem executeWord_eq_of_disassemble {pc : UInt64} {first second : UInt32}
    (left : Accepted first) (right : Accepted second)
    (same : disassemble pc first = disassemble pc second) :
    ∀ (hart : Hart) (bus : Bus δ), hart.pc = pc →
      hart.executeWord bus first = hart.executeWord bus second := by
  intro hart bus _
  obtain ⟨instruction, decoded⟩ := Option.isSome_iff_exists.mp right.decodes
  have agreed := ofWord?_eq_of_disassemble left.decodes right.decodes same
  simp only [executeWord, agreed, decoded]

/-- Memory ordering of data and of the instruction stream are listed alike. -/
theorem fences_listed_alike_do_the_same :
    Accepted 0x0FF0000F ∧ Accepted 0x0000100F ∧
      disassemble resetVector 0x0FF0000F = disassemble resetVector 0x0000100F ∧
      ∀ bus : Bus Peripheral,
        (reset resetVector).executeWord bus 0x0FF0000F =
          (reset resetVector).executeWord bus 0x0000100F := by
  have data : Accepted 0x0FF0000F := ⟨reset resetVector, wordBus 0x0FF0000F, by decide +kernel⟩
  have code : Accepted 0x0000100F := ⟨reset resetVector, wordBus 0x0000100F, by decide +kernel⟩
  have same : disassemble resetVector 0x0FF0000F = disassemble resetVector 0x0000100F := by
    decide +kernel
  exact ⟨data, code, same, fun bus =>
    executeWord_eq_of_disassemble data code same (reset resetVector) bus rfl⟩

end Hart

end HartScope
