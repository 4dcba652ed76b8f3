import HartScope.Proofs.Reference.InStep
import HartScope.Proofs.Reference.Journal

/-!
What a run asks of its reference, and what it does with the answers.  The journal of a run is made up
of what its cycles ask for, and a run ends with the first instruction after which the reference holds
other registers than the hart.  This is about runs whose writer takes all that they write: one that
fails between a mismatch and the end of the cycle would leave the program running.
-/

namespace HartScope

namespace RegisterContext

/-- The comparison misses nothing that is exchanged. -/
theorem mismatches_eq_nil (reference actual : RegisterContext) :
    reference.mismatches actual = [] ↔ reference = actual := by
  constructor
  · intro agreed
    -- Both lists name the same fields in the same order, so each is compared with its counterpart.
    rw [mismatches, fields, fields, List.zip_append (by simp), List.zip_map'] at agreed
    obtain ⟨registers, pc, mcause, mstatus, mepc, mtvec⟩ :
        (∀ r : Reg, reference.registers[r.val] = actual.registers[r.val]) ∧
          reference.pc = actual.pc ∧ reference.mcause = actual.mcause ∧
          reference.mstatus = actual.mstatus ∧ reference.mepc = actual.mepc ∧
          reference.mtvec = actual.mtvec := by
      simpa using agreed
    cases reference
    cases actual
    rw [mk.injEq]
    exact ⟨Vector.ext fun position bound => registers ⟨position, bound⟩, pc, mstatus, mcause, mepc,
      mtvec⟩
  · rintro rfl
    exact mismatches_self reference

end RegisterContext

namespace Simulator

variable {ρ : Type} [ReferenceModel ρ]

/-- The next instruction retires without a device, and then the reference, having executed one
instruction as well, holds other registers than the hart. -/
def Disagrees (simulator : Simulator ρ) : Prop :=
  let step := simulator.hart.step simulator.bus
  ∃ model, simulator.reference = some model ∧ (∃ retirement, step.result = .ok retirement) ∧
    simulator.hart.reachesDevice simulator.bus = false ∧
    (ReferenceModel.getRegisters (ReferenceModel.execute model 1).1).1 ≠ .ofHart step.hart

theorem diverges_iff {simulator : Simulator ρ} (clear : simulator.bus.touched = false) :
    simulator.diverges = true ↔ simulator.Disagrees := by
  unfold diverges mismatches Disagrees
  dsimp only
  rw [simulator.hart.step_touched_of_clear clear]
  cases simulator.reference with
  | none => simp
  | some model =>
      cases (simulator.hart.step simulator.bus).result with
      | error fault => simp
      | ok retirement =>
          cases simulator.hart.reachesDevice simulator.bus with
          | true => simp [Lockstep.check]
          | false => simp [Lockstep.check, RegisterContext.mismatches_eq_nil]

variable {simulator reached : Simulator ρ}

theorem diverges_of_not_disagrees (clear : simulator.bus.touched = false)
    (agrees : ¬simulator.Disagrees) : simulator.diverges = false := by
  rw [← diverges_iff clear] at agrees
  exact Bool.eq_false_iff.mpr agrees

/-- A disagreement aborts the program at the instruction, whatever the instruction asked for. -/
theorem cycle_of_disagrees (clear : simulator.bus.touched = false) (disagrees : simulator.Disagrees) :
    (simulator.cycle false).simulator.state = .aborted simulator.hart.pc RunState.abortValue := by
  have diverges := (diverges_iff clear).mpr disagrees
  obtain ⟨_, _, ⟨retirement, outcome⟩, _⟩ := disagrees
  rw [cycle_verdict, diverges, simulator.guest.verdict_of_ok outcome]
  rfl

theorem cycle_of_agrees (clear : simulator.bus.touched = false) (agrees : ¬simulator.Disagrees)
    {retirement : Retirement}
    (outcome : (simulator.hart.step simulator.bus).result = .ok retirement) :
    (simulator.cycle false).simulator.state =
      simulator.state.retired simulator.hart.pc retirement := by
  rw [cycle_verdict, diverges_of_not_disagrees clear agrees,
    simulator.guest.verdict_of_ok outcome]
  rfl

theorem cycle_hart (simulator : Simulator ρ) :
    (simulator.cycle false).simulator.hart =
      match simulator.interrupt? with
      | none => (simulator.hart.step simulator.bus).hart
      | some cause => (simulator.hart.step simulator.bus).hart.enterTrap cause := by
  have hart : (simulator.cycle false).simulator.hart =
      (simulator.guest.cycle simulator.diverges).hart :=
    congrArg Guest.hart (simulator.cycle_guest false).1
  rw [hart, interrupt?, cycle_verdict, Guest.cycle_hart]
  rfl

theorem cycles_clear (clear : simulator.bus.touched = false) (budget : UInt64) :
    ∀ reached ∈ simulator.cycles budget, reached.bus.touched = false :=
  cycles_induction (fun reached => reached.bus.touched = false)
    (fun _ continued => next?_clear continued) clear

theorem run_of_disagrees {budget : UInt64} {before rest : List (Simulator ρ)}
    (split : simulator.cycles budget = before ++ reached :: rest)
    (clear : reached.bus.touched = false) (disagrees : reached.Disagrees) :
    rest = [] ∧ (simulator.run budget).state.hart = (reached.hart.step reached.bus).hart ∧
      (simulator.run budget).state.state = .aborted reached.hart.pc RunState.abortValue := by
  have aborted := cycle_of_disagrees clear disagrees
  have uninterrupted : reached.interrupt? = none := by
    rw [interrupt?, aborted]
    rfl
  have hart := reached.cycle_hart
  rw [uninterrupted] at hart
  obtain ⟨last, final⟩ := run_last split (by rw [aborted]; rfl)
  rw [final]
  exact ⟨last, hart, aborted⟩

/-- A reference is driven by the cycles of a run alone: each asks for what `referenceCalls` lists, in
that order, and takes the interrupt that it raises there.  A disagreement makes its cycle the last
one and aborts the program at its instruction; without one the instruction decides. -/
theorem run_drives_reference (simulator : Simulator ρ) {model : ρ}
    (attached : simulator.reference = some model) (clear : simulator.bus.touched = false)
    (budget : UInt64) :
    (∃ final, (simulator.run budget).state.reference = some final) ∧
      (simulator.journaled []).run budget =
        ⟨(simulator.run budget).state.journaled ((simulator.cycles budget).flatMap referenceCalls),
          (simulator.run budget).result, (simulator.run budget).output⟩ ∧
      ∀ before reached rest, simulator.cycles budget = before ++ reached :: rest →
        ((reached.cycle false).simulator.hart =
          match reached.interrupt? with
          | none => (reached.hart.step reached.bus).hart
          | some cause => (reached.hart.step reached.bus).hart.enterTrap cause) ∧
        (reached.Disagrees → rest = [] ∧
          (simulator.run budget).state.hart = (reached.hart.step reached.bus).hart ∧
          (simulator.run budget).state.state = .aborted reached.hart.pc RunState.abortValue) ∧
        (¬reached.Disagrees →
          ∀ retirement, (reached.hart.step reached.bus).result = .ok retirement →
            (reached.cycle false).simulator.state =
              reached.state.retired reached.hart.pc retirement) := by
  refine ⟨?_, ?_, ?_⟩
  · have kept := simulator.run_attached budget
    rw [attached] at kept
    exact Option.isSome_iff_exists.mp kept
  · have journaled := simulator.run_journaled [] clear budget
    rwa [List.nil_append] at journaled
  · intro before reached rest split
    have reachedClear := cycles_clear clear budget reached (by simp [split])
    exact ⟨reached.cycle_hart, run_of_disagrees split reachedClear,
      fun agrees retirement => cycle_of_agrees reachedClear agrees⟩

def strayReference : Interpreter :=
  ReferenceModel.setRegisters
    ((Interpreter.new Hart.resetVector 16).copyMemory Hart.resetVector
      ([0x00008023, 0x00000513, 0x00150513].flatMap LittleEndian.wordBytes)).1
    (.ofHart sampleHart)

def straySimulator : Simulator Interpreter :=
  { sampleSimulator with reference := some strayReference }

/-- The byte for the serial line is not checked, the addition is, and the halt becomes an abort. -/
theorem stray_reference_aborts_halt :
    ((straySimulator.journaled []).run 9).state.reference.map (·.calls) =
        some [.setRegisters (.ofHart (sampleHart.step sampleSimulator.bus).hart), .execute 1,
          .getRegisters, .execute 1, .getRegisters] ∧
      (straySimulator.run 9).state.state =
        .aborted (Hart.resetVector + 8) RunState.abortValue := by
  -- The reference has an increment of `a0` where the hart has the halt.
  let first := straySimulator.setPhase .running
  let second := (first.cycle false).simulator
  let third := (second.cycle false).simulator
  have onward : first.next? = some second := by
    rw [next?_eq first false, if_pos (by decide +kernel)]
  have again : second.next? = some third := by
    rw [next?_eq second false, if_pos (by decide +kernel)]
  have last : third.next? = none := by
    rw [next?_eq third false, if_neg (by decide +kernel)]
  have cycles : straySimulator.cycles 9 = [first, second] ++ third :: [] := by
    have started : straySimulator.cycles 9 = visited 9 first := if_neg (by decide)
    rw [started, visited_of_next onward, visited_of_next again, visited_of_last last]
    rfl
  have disagrees : third.Disagrees := (diverges_iff (by decide +kernel)).mp (by decide +kernel)
  obtain ⟨⟨final, attached⟩, journal, ends⟩ := run_drives_reference straySimulator rfl rfl 9
  obtain ⟨_, _, aborted⟩ := (ends _ _ _ cycles).2.1 disagrees
  refine ⟨?_, aborted.trans (by decide +kernel)⟩
  have calls : [first, second, third].flatMap referenceCalls =
      [.setRegisters (.ofHart (sampleHart.step sampleSimulator.bus).hart), .execute 1,
        .getRegisters, .execute 1, .getRegisters] := by decide +kernel
  rw [journal, cycles]
  simp [journaled, attached, calls]

end Simulator

end HartScope
