import HartScope.Proofs.Reference.Attachment

/-!
What a refused program leaves behind.  Nothing but RAM changes, and RAM only under an ELF file that
has a bad segment behind good ones: the segments are checked one at a time, and those before the bad
one stay.
-/

namespace HartScope

namespace Simulator

variable {ρ : Type} {simulator : Simulator ρ} {reader : Elf.Reader} {bytes : Array UInt8}

/-- A program that is refused changes nothing but RAM, and RAM only where an ELF file has a segment
that cannot be placed: then the segments before it stay in RAM. -/
theorem load_refused (lawful : reader.Lawful) {cause : LoadError}
    (refused : (simulator.load reader bytes).result = .error (.load cause)) :
    let after := (simulator.load reader bytes).state
    after = simulator.setMemory after.bus.ram ∧
      (after.bus.ram = simulator.bus.ram ∨
        ∃ file, reader.file? bytes = some file ∧ Loading.headerDefect? file.header = none ∧
          Loading.CutShort bytes simulator.bus.ram after.bus.ram (Loading.loadable file)) := by
  intro after
  have left : after =
      simulator.setMemory (Loading.ofBytes reader simulator.bus.ram bytes).memory ∧
        (Loading.ofBytes reader simulator.bus.ram bytes).result = .error (.refused cause) := by
    simp only [after, load] at refused ⊢
    cases outcome : (Loading.ofBytes reader simulator.bus.ram bytes).result with
    | error failure =>
        cases failure with
        | refused reason =>
            simp only [outcome, Reply.error, SimulatorError.ofLoadFailure, Except.error.injEq,
              SimulatorError.load.injEq] at refused
            subst refused
            exact ⟨rfl, rfl⟩
        | overflow => simp [outcome, Reply.error, SimulatorError.ofLoadFailure] at refused
    | ok image => simp [outcome, Reply.note] at refused
  rw [left.1]
  exact ⟨rfl, Loading.ofBytes_refused lawful left.2⟩

/-- An ELF file with a segment 32 bytes into RAM, a halt, and one that lies outside of RAM. -/
def strayFile : Array UInt8 :=
  Elf.executable 0x80000020 [⟨1, 176, 0x80000020, 4, 4⟩, ⟨1, 176, 0x90000000, 4, 4⟩]
    (LittleEndian.wordBytes 0x00100073)

theorem strayFile_refused :
    (smallBoard.load .standard strayFile).result =
      .error (.load (.outOfMemory 0x90000000 0x90000004)) := by
  decide +kernel

theorem strayFile_ram :
    smallBoard.bus.ram.byte 32 = 0 ∧
      (smallBoard.load .standard strayFile).state.bus.ram.byte 32 = 0x73 := by
  decide +kernel

theorem stray_file_leaves_first_segment :
    let after := (smallBoard.load .standard strayFile).state
    after = smallBoard.setMemory after.bus.ram ∧
      ∃ file, Elf.Reader.standard.file? strayFile = some file ∧
        Loading.CutShort strayFile smallBoard.bus.ram after.bus.ram (Loading.loadable file) := by
  have left := load_refused Elf.Reader.standard_lawful strayFile_refused
  have bytes := strayFile_ram
  generalize (smallBoard.load .standard strayFile).state = after at left bytes ⊢
  obtain ⟨kept, same | ⟨file, parsed, _, short⟩⟩ := left
  · rw [same] at bytes
    exact absurd (bytes.1.symm.trans bytes.2) (by decide)
  · exact ⟨kept, file, parsed, short⟩

/-- The halt of a refused file stays in RAM. -/
theorem refused_file_changes_ram :
    ¬∀ (simulator : Simulator Interpreter) (bytes : Array UInt8) (cause : LoadError),
      (simulator.load .standard bytes).result = .error (.load cause) →
        (simulator.load .standard bytes).state.bus.ram.Same simulator.bus.ram ∧
          (simulator.load .standard bytes).state.hart = simulator.hart ∧
          (simulator.load .standard bytes).state.image = simulator.image := by
  intro atomic
  obtain ⟨same, _⟩ := atomic smallBoard strayFile _ strayFile_refused
  have kept := same.byte 32 (by decide +kernel)
  have overwritten := strayFile_ram.2.symm.trans (kept.trans strayFile_ram.1)
  exact absurd overwritten (by decide)

end Simulator

end HartScope
