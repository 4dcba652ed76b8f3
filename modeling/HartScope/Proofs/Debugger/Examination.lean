import HartScope.Debugger.Session
import HartScope.Proofs.Memory.Words
import HartScope.Proofs.Reference.Attachment
import HartScope.Proofs.Text.Numerals

/-!
What an examination of memory shows.  The lines are those of the words that can be read in a row, and one
more if that row is shorter than was asked for.  It ends long before the count does, since every read but
the last is of another word of RAM.
-/

namespace HartScope

namespace Blank

theorem isBlank_of_isDigit {c : Char} (digit : c.isDigit = true) : isBlank c = false := by
  obtain ⟨lower, upper⟩ : 48 ≤ c.toNat ∧ c.toNat ≤ 57 := Char.isDigit_iff_toNat.mp digit
  simp only [isBlank, Bool.or_eq_false_iff, Bool.and_eq_false_iff, decide_eq_false_iff_not,
    beq_eq_false_iff_ne]
  omega

/-- The first blank divides a text. -/
theorem split?_append {word : List Char} (rest : List Char) {blank : Char}
    (plain : ∀ c ∈ word, isBlank c = false) (divides : isBlank blank = true) :
    split? (word ++ blank :: rest) = some (word, rest) := by
  have kept : ∀ c ∈ word, (!isBlank c) = true := fun c member => by rw [plain c member]; rfl
  simp [split?, List.dropWhile_append_of_pos kept, List.takeWhile_append_of_pos kept, divides]

theorem trimStart_of_visible {cs : List Char} (start : ∀ c ∈ cs.head?, isBlank c = false) :
    trimStart cs = cs := by
  cases cs with
  | nil => rfl
  | cons c rest => exact List.dropWhile_cons_of_neg (by simp [start c rfl])

/-- Nothing is dropped from a text that neither starts nor ends with a blank. -/
theorem trim_of_visible {cs : List Char} (start : ∀ c ∈ cs.head?, isBlank c = false)
    (stop : ∀ c ∈ cs.getLast?, isBlank c = false) : trim cs = cs := by
  have turned : trimStart cs.reverse = cs.reverse :=
    trimStart_of_visible (by rwa [List.head?_reverse])
  rw [trim, trimStart_of_visible start, turned, List.reverse_reverse]

end Blank

namespace Request

theorem count?_toDigits {count : Nat} (fits : count < 2 ^ 64) :
    count? (Nat.toDigits 10 count) = some (UInt64.ofNat count) := by
  have read : Numeral.ofSigned? Numeral.wordLimit (Nat.toDigits 10 count) = some count :=
    Numeral.ofSigned?_eq_some_iff.mpr ⟨.inl (Numeral.denotes_toDigits count), fits⟩
  rw [count?, read]
  rfl

/-- A command and its argument stand apart at the first blank. -/
theorem split_word {word argument : List Char} (plain : ∀ c ∈ word, Blank.isBlank c = false)
    (trimmed : Blank.trim argument = argument) (filled : argument ≠ []) :
    split (word ++ ' ' :: argument) = (word, some argument) := by
  have space : Blank.isBlank ' ' = true := rfl
  have kept : (!argument.isEmpty) = true := by simpa using filled
  simp only [split, Blank.split?_append _ plain space, trimmed, Option.filter_some, kept, if_true]

/-- An examination can be asked for with any count that fits a word and any expression that does not end
with a blank. -/
theorem ofLine_examine {count : Nat} (fits : count < 2 ^ 64) {expr : String} {last : Char}
    (ends : expr.toList.getLast? = some last) (visible : Blank.isBlank last = false) :
    ofLine ("x " ++ toString count ++ " " ++ expr) = .examine (UInt64.ofNat count) expr := by
  obtain ⟨nonempty, digits, _⟩ := Numeral.denotes_toDigits count
  have plain : ∀ c ∈ Nat.toDigits 10 count, Blank.isBlank c = false :=
    fun c member => Blank.isBlank_of_isDigit (digits c member)
  have asked := count?_toDigits fits
  have line : ("x " ++ toString count ++ " " ++ expr).toList =
      ['x'] ++ ' ' :: (Nat.toDigits 10 count ++ ' ' :: expr.toList) := by
    simp
  generalize Nat.toDigits 10 count = numeral at nonempty plain asked line
  obtain ⟨digit, others, rfl⟩ := List.exists_cons_of_ne_nil nonempty
  have stop (front : List Char) :
      ∀ c ∈ (front ++ ' ' :: expr.toList).getLast?, Blank.isBlank c = false := by
    simp [List.getLast?_cons, ends, visible]
  have whole : Blank.trim (['x'] ++ ' ' :: (digit :: others ++ ' ' :: expr.toList)) =
      ['x'] ++ ' ' :: (digit :: others ++ ' ' :: expr.toList) :=
    Blank.trim_of_visible (by rintro c ⟨⟩; rfl) (stop (['x'] ++ ' ' :: (digit :: others)))
  have argument : Blank.trim (digit :: others ++ ' ' :: expr.toList) =
      digit :: others ++ ' ' :: expr.toList :=
    Blank.trim_of_visible (by simpa using plain digit List.mem_cons_self) (stop (digit :: others))
  have letter : ∀ c ∈ ['x'], Blank.isBlank c = false := List.forall_mem_singleton.mpr rfl
  have command := split_word letter argument nofun
  have words : Blank.split? (digit :: others ++ ' ' :: expr.toList) =
      some (digit :: others, expr.toList) := Blank.split?_append _ plain rfl
  have examine : Command.ofWord? (String.ofList ['x']) = some .examine := by decide
  rw [List.singleton_append] at line whole command
  simp only [ofLine, line, whole, command, examine, ofCommand, examineWords, Option.bind_some, words,
    asked, String.ofList_toList]

end Request

namespace Simulator

variable {ρ : Type} (simulator : Simulator ρ) {address : UInt64}

theorem readWord_of_holds (inside : simulator.bus.ram.Holds address 4) :
    ∃ word, simulator.readWord address = .ok word ∧
      word.toNat = simulator.bus.ram.wordAt address := by
  obtain ⟨value, read, number⟩ := Memory.read?_word_of_holds inside
  exact ⟨value.toUInt32, by rw [readWord, read], number⟩

theorem readWord_of_not_holds (outside : ¬simulator.bus.ram.Holds address 4) :
    simulator.readWord address = .error ⟨address, .word, .read⟩ := by
  rw [readWord, Memory.read?_word_of_not_holds outside]

end Simulator

namespace Debugger

variable {ρ : Type} (simulator : Simulator ρ)

/-- The line that shows an address and the word there, each in at least eight hexadecimal digits. -/
def wordLine (ram : Memory) (address : UInt64) : String :=
  let digits (n : Nat) := String.ofList ((Nat.toDigits 16 n).leftpad 8 '0')
  "0x" ++ digits address.toNat ++ ": " ++ ("0x" ++ digits (ram.wordAt address)) ++ "\n"

/-- The line that says that there is no word at an address. -/
def refusalLine (address : UInt64) : String :=
  "address " ++ ("0x" ++ String.ofList (Nat.toDigits 16 address.toNat)) ++
    " (read, 4 bytes) is out of bound\n"

theorem message_eq_refusalLine (address : UInt64) :
    OutOfBound.message ⟨address, .word, .read⟩ ++ "\n" = refusalLine address := by
  have ending : " (" ++ "read" ++ ", " ++ Width.word.text ++ " bytes) " ++ "is out of bound" ++
      "\n" = " (read, 4 bytes) is out of bound\n" := by
    decide +kernel
  have message : OutOfBound.message ⟨address, .word, .read⟩ = "address " ++
      Numeral.hex address.toNat ++ " (" ++ "read" ++ ", " ++ Width.word.text ++ " bytes) " ++
        "is out of bound" := rfl
  rw [message, refusalLine, ← Numeral.hex, ← ending]
  simp only [String.append_assoc]

/-- `wordLines` with the reads as steps of a monad. -/
def wordLinesM {m : Type → Type} [Monad m] (read : UInt64 → m (Except OutOfBound UInt32)) :
    (count : Nat) → (address : UInt64) → (lines : Array String) → m (Array String)
  | 0, _, lines => pure lines
  | count + 1, address, lines => do
      match ← read address with
      | .error fault => pure (lines.push (fault.message ++ "\n"))
      | .ok word =>
          let line := s!"{Numeral.hexPadded 8 address.toNat}: {Numeral.hexPadded 8 word.toNat}\n"
          wordLinesM read count (address + 4) (lines.push line)

/-- A read that adds its address to those read so far. -/
def recordedRead (address : UInt64) : StateM (List UInt64) (Except OutOfBound UInt32) := do
  modify (· ++ [address])
  return simulator.readWord address

theorem wordLinesM_id (count : Nat) (address : UInt64) (lines : Array String) :
    Id.run (wordLinesM (fun place => pure (simulator.readWord place)) count address lines) =
      wordLines simulator count address lines := by
  induction count generalizing address lines with
  | zero => rfl
  | succ count ih =>
      simp only [wordLinesM, wordLines]
      cases simulator.readWord address with
      | error fault => rfl
      | ok word => exact ih _ _

/-- One read for each line, up to the first address without a word. -/
theorem wordLinesM_recorded (count : Nat) (address : UInt64) (lines : Array String)
    (earlier : List UInt64) :
    Id.run ((wordLinesM (recordedRead simulator) count address lines).run earlier) =
      (wordLines simulator count address lines, earlier ++
        (simulator.bus.ram.wordRow count address ++
          (simulator.bus.ram.rowEnd? count address).toList)) := by
  induction count generalizing address lines earlier with
  | zero => simp [wordLinesM, wordLines, Memory.wordRow, Memory.rowEnd?_zero]
  | succ count ih =>
      by_cases inside : simulator.bus.ram.Holds address 4
      · obtain ⟨word, read, _⟩ := simulator.readWord_of_holds inside
        simp [wordLinesM, recordedRead, wordLines, read, ih, Memory.wordRow_of_holds inside,
          Memory.rowEnd?_of_holds inside]
      · simp [wordLinesM, recordedRead, wordLines, simulator.readWord_of_not_holds inside,
          Memory.wordRow_of_not_holds inside, Memory.rowEnd?_of_not_holds inside]

theorem wordLines_toList (count : Nat) (address : UInt64) (lines : Array String) :
    (wordLines simulator count address lines).toList = lines.toList ++
      ((simulator.bus.ram.wordRow count address).map (wordLine simulator.bus.ram) ++
        (simulator.bus.ram.rowEnd? count address).toList.map refusalLine) := by
  induction count generalizing address lines with
  | zero => simp [wordLines, Memory.wordRow, Memory.rowEnd?_zero]
  | succ count ih =>
      by_cases inside : simulator.bus.ram.Holds address 4
      · obtain ⟨word, read, number⟩ := simulator.readWord_of_holds inside
        simp only [wordLines, read, ih, number, Memory.wordRow_of_holds inside,
          Memory.rowEnd?_of_holds inside, Array.toList_push, List.map_cons, List.append_assoc]
        rfl
      · simp [wordLines, simulator.readWord_of_not_holds inside, message_eq_refusalLine,
          Memory.wordRow_of_not_holds inside, Memory.rowEnd?_of_not_holds inside]

/-- A line can ask for any count below `2 ^ 64`, and whatever expression it gives and wherever that leads,
the answer shows the words that can be read in a row and says of the address behind them, if fewer are
shown than were asked for, that there is no word.  With the reads as steps the lines are the same, and
each line comes from one read, so that there are never more reads than words in RAM and one. -/
theorem examination_shows_row [ReferenceModel ρ] :
    (∀ (count : Nat) (expr : String) (last : Char), count < 2 ^ 64 →
      expr.toList.getLast? = some last → Blank.isBlank last = false →
        Request.ofLine ("x " ++ toString count ++ " " ++ expr) =
          .examine (UInt64.ofNat count) expr) ∧
    (∀ count address lines,
      Id.run (wordLinesM (fun place => pure (simulator.readWord place)) count address lines) =
        wordLines simulator count address lines) ∧
    ∀ (line expr : String) (count address : UInt64),
      Request.ofLine line = .examine count expr → simulator.evaluate expr = .ok address →
        let ram := simulator.bus.ram
        let row := ram.wordRow count.toNat address
        let refused := (ram.rowEnd? count.toNat address).toList
        execute simulator line =
          { state := simulator
            result := .ok .stay
            output := [.console (String.join (row.map (wordLine ram) ++ refused.map refusalLine))] } ∧
        Id.run ((wordLinesM (recordedRead simulator) count.toNat address #[]).run []) =
          (wordLines simulator count.toNat address #[], row ++ refused) ∧
        (row ++ refused).length ≤ min count.toNat (ram.size.toNat / 4 + 1) := by
  refine ⟨fun count expr last fits => Request.ofLine_examine fits, wordLinesM_id simulator, ?_⟩
  intro line expr count address asked value ram row refused
  refine ⟨?_, wordLinesM_recorded simulator count.toNat address #[] [],
    ram.asked_length_le count.toNat address⟩
  rw [execute, asked]
  simp only [perform, withValue, value, wordLines_toList, List.nil_append]
  rfl

/-- RAM that goes on past the last address, with nothing where the addresses start again. -/
def topSimulator : Simulator Interpreter :=
  Simulator.smallBoard.setMemory (Memory.filled 0xFFFFFFFFFFFFFFF8 16 0xAB)

theorem examination_ends_at_top :
    let line := "x " ++ toString 18446744073709551615 ++ " " ++ "0xfffffffffffffff8"
    Request.ofLine line = .examine 18446744073709551615 "0xfffffffffffffff8" ∧
      topSimulator.evaluate "0xfffffffffffffff8" = .ok 0xFFFFFFFFFFFFFFF8 ∧
      execute topSimulator line =
        { state := topSimulator
          result := .ok .stay
          output := [.console ("0xfffffffffffffff8: 0xabababab\n0xfffffffffffffffc: 0xabababab\n" ++
            "address 0x0 (read, 4 bytes) is out of bound\n")] } ∧
      (Id.run ((wordLinesM (recordedRead topSimulator) 18446744073709551615 0xFFFFFFFFFFFFFFF8
        #[]).run [])).2 = [0xFFFFFFFFFFFFFFF8, 0xFFFFFFFFFFFFFFFC, 0] := by
  intro line
  obtain ⟨stated, _, shows⟩ := examination_shows_row topSimulator
  have asked : Request.ofLine line = .examine 18446744073709551615 "0xfffffffffffffff8" :=
    stated 18446744073709551615 "0xfffffffffffffff8" '8' (by decide) (by decide) (by decide)
  have value : topSimulator.evaluate "0xfffffffffffffff8" = .ok 0xFFFFFFFFFFFFFFF8 := by
    decide +kernel
  obtain ⟨answer, reads, _⟩ := shows _ _ _ _ asked value
  have first : topSimulator.bus.ram.Holds 0xFFFFFFFFFFFFFFF8 4 := by decide
  have second : topSimulator.bus.ram.Holds (0xFFFFFFFFFFFFFFF8 + 4) 4 := by decide
  have third : ¬topSimulator.bus.ram.Holds (0xFFFFFFFFFFFFFFF8 + 4 + 4) 4 := by decide
  have count : (18446744073709551615 : UInt64).toNat = 18446744073709551612 + 1 + 1 + 1 := rfl
  rw [count, Memory.wordRow_of_holds first, Memory.wordRow_of_holds second,
    Memory.wordRow_of_not_holds third, Memory.rowEnd?_of_holds first, Memory.rowEnd?_of_holds second,
    Memory.rowEnd?_of_not_holds third] at answer reads
  refine ⟨asked, value, answer.trans (congrArg (say topSimulator) ?_),
    (congrArg Prod.snd reads).trans (by decide)⟩
  decide +kernel

end Debugger

end HartScope
