import HartScope.Proofs.Reference.Interpreter
import HartScope.Proofs.Simulator.Stages
import HartScope.Simulator.Run

/-!
The simulator and its in-process reference advance in step.  A retired instruction that no device
served is mirrored by the reference, one that a device served changes nothing that the register
exchange leaves out, an interrupt enters the same trap on both sides, and an instruction that fails
leaves both sides where they were.  No writer fails, so that each cycle comes to its end.
-/

namespace HartScope.Simulator

/-- The reference is attached, and its RAM, registers, program counter and CSRs are the hart's. -/
structure InStep (simulator : Simulator Interpreter) : Prop where
  wired : simulator.hart.registers.Wired
  clear : simulator.bus.touched = false
  attached : ∃ model, simulator.reference = some model ∧ model.bus.devices = [] ∧
    model.hart = simulator.hart ∧ model.bus.ram.Same simulator.bus.ram

variable {simulator : Simulator Interpreter} {model : Interpreter}

theorem checkReference_mirrored (attached : simulator.reference = some model)
    (wired : simulator.hart.registers.Wired) (clear : simulator.bus.touched = false)
    {retirement : Retirement} (retired : (model.hart.step model.bus).result = .ok retirement)
    (hart : (model.hart.step model.bus).hart = simulator.hart)
    (bare : (model.hart.step model.bus).bus.devices = [])
    (ram : (model.hart.step model.bus).bus.ram.Same simulator.bus.ram) (pc : UInt64) :
    (simulator.checkReference pc false).1.InStep ∧
      Quiet (simulator.checkReference pc false).2 := by
  have checked : Lockstep.check model simulator.hart pc false =
      ⟨⟨simulator.hart, (model.hart.step model.bus).bus⟩, [],
        Output.events (model.hart.step model.bus).output⟩ := by
    simp [Lockstep.check, ReferenceModel.execute, ReferenceModel.getRegisters,
      Interpreter.execute, Interpreter.advance, retired, hart, RegisterContext.mismatches_self]
  have stepped := Hart.step_quiet model.hart model.bus
  simp only [checkReference, attached, checked, List.isEmpty_nil, if_true]
  refine ⟨⟨wired, clear, _, rfl, bare, rfl, ram⟩, ?_⟩
  intro entry member
  obtain ⟨event, logged, rfl⟩ := List.mem_map.mp member
  obtain ⟨origin, present, same⟩ := List.mem_filterMap.mp logged
  cases origin with
  | log original =>
      cases same
      exact stepped _ present
  | console | serial | statistics => cases same

theorem checkReference_served (attached : simulator.reference = some model)
    (wired : simulator.hart.registers.Wired) (clear : simulator.bus.touched = false)
    (csrs : model.hart.csrs = simulator.hart.csrs) (bare : model.bus.devices = [])
    (ram : model.bus.ram.Same simulator.bus.ram) (pc : UInt64) :
    (simulator.checkReference pc true).1.InStep ∧
      Quiet (simulator.checkReference pc true).2 := by
  have exchanged := RegisterContext.apply_ofHart wired csrs
  simp only [checkReference, attached, Lockstep.check, if_true, List.isEmpty_nil, List.map_nil,
    ReferenceModel.setRegisters, exchanged]
  exact ⟨⟨wired, clear, _, rfl, bare, rfl, ram⟩, quiet_nil⟩

theorem takeInterrupt_inStep (synced : simulator.InStep) :
    simulator.takeInterrupt.1.InStep ∧ Quiet simulator.takeInterrupt.2 := by
  obtain ⟨wired, clear, model, attached, bare, hart, ram⟩ := synced
  unfold takeInterrupt
  cases simulator.hart.csrs.pendingInterrupt? with
  | none => exact ⟨⟨wired, clear, model, attached, bare, hart, ram⟩, quiet_nil⟩
  | some cause =>
      have raised : (simulator.reference.map (ReferenceModel.raiseInterrupt · cause)) =
          some { model with hart := simulator.hart.enterTrap cause } := by
        rw [attached, ← hart]
        rfl
      exact ⟨⟨wired, clear, _, raised, bare, rfl, ram⟩, Quiet.cons rfl quiet_nil⟩

theorem endCycle_inStep (synced : simulator.InStep) :
    simulator.endCycle.1.InStep ∧ Quiet simulator.endCycle.2 := by
  obtain ⟨pool, polled⟩ := simulator.pollWatchpoints_frame
  have reports := simulator.pollWatchpoints_quiet
  simp only [endCycle]
  rw [polled]
  split
  · have updated : InStep (updateDevices { simulator with watchpoints := pool }) :=
      ⟨synced.wired, synced.clear, synced.attached⟩
    obtain ⟨interrupted, logged⟩ := takeInterrupt_inStep updated
    exact ⟨interrupted, reports.append logged⟩
  · exact ⟨⟨synced.wired, synced.clear, synced.attached⟩, reports⟩

theorem retire_inStep (simulator : Simulator Interpreter) (echo : Bool) (context : StepContext)
    (retirement : Retirement)
    (compared : ∀ {checked : Simulator Interpreter}, checked.hart = simulator.hart →
      checked.bus = { simulator.bus with touched := false } →
      checked.reference = simulator.reference → ∀ pc,
      (checked.checkReference pc simulator.bus.touched).1.InStep ∧
        Quiet (checked.checkReference pc simulator.bus.touched).2) :
    (simulator.retire echo context retirement).1.InStep ∧
      Quiet (simulator.retire echo context retirement).2 := by
  obtain ⟨state, ring, shape⟩ := simulator.beforeCheck_frame echo context retirement
  simp only [retire_eq]
  generalize simulator.beforeCheck echo context retirement = ready at shape ⊢
  obtain ⟨checked, silent⟩ := @compared ready (by rw [shape]) (by rw [shape]) (by rw [shape])
    context.pc
  generalize ready.checkReference context.pc simulator.bus.touched = comparison at checked silent ⊢
  have echoed := simulator.recordLine_quiet echo context
  have traced := comparison.1.traceCalls_quiet context
  obtain ⟨tracer, followed⟩ := comparison.1.traceCalls_frame context
  have passed : (comparison.1.traceCalls context).1.InStep := by
    rw [followed]
    exact ⟨checked.wired, checked.clear, checked.attached⟩
  obtain ⟨ended, ending⟩ := endCycle_inStep passed
  exact ⟨ended, ((echoed.append silent).append traced).append ending⟩

theorem fail_inStep (synced : simulator.InStep) (echo : Bool) (context : StepContext)
    (fault : Fault) :
    (simulator.fail echo context fault).1.InStep ∧
      Quiet (simulator.fail echo context fault).2 := by
  have aborted : (simulator.beforeEnd echo context).InStep :=
    ⟨synced.wired, rfl, synced.attached⟩
  obtain ⟨ended, ending⟩ := endCycle_inStep aborted
  have echoed := simulator.recordLine_quiet echo context
  rw [fail_eq]
  exact ⟨ended, (Quiet.cons rfl echoed).append ending⟩

/-- No device serves the word at the program counter. -/
def FetchesRam {ρ : Type} (simulator : Simulator ρ) : Prop :=
  simulator.bus.ram.read? simulator.hart.pc .word = none →
    simulator.bus.target? simulator.hart.pc Width.word.bytes = none

theorem compare_inStep (synced : simulator.InStep) (fetched : simulator.FetchesRam)
    {retirement : Retirement}
    (outcome : (simulator.hart.step simulator.bus).result = .ok retirement)
    {checked : Simulator Interpreter} (sameHart : checked.hart = simulator.executed.hart)
    (sameBus : checked.bus = { simulator.executed.bus with touched := false })
    (sameReference : checked.reference = simulator.reference) (pc : UInt64) :
    (checked.checkReference pc simulator.executed.bus.touched).1.InStep ∧
      Quiet (checked.checkReference pc simulator.executed.bus.touched).2 := by
  obtain ⟨wired, clear, model, attached, bare, hart, ram⟩ := synced
  have checkedWired : checked.hart.registers.Wired := by
    rw [sameHart]
    exact Hart.step_wired wired simulator.bus
  have checkedClear : checked.bus.touched = false := by rw [sameBus]
  rw [attached] at sameReference
  obtain mirrored | served := Hart.step_mirrored simulator.hart bare ram fetched
  · -- The reference is one instruction behind and executes it.
    have untouched : simulator.executed.bus.touched = false := mirrored.touched.trans clear
    rw [untouched]
    apply checkReference_mirrored sameReference checkedWired checkedClear
    · rw [hart, mirrored.result, outcome]
    · rw [hart, mirrored.hart, sameHart, executed]
    · rw [hart, mirrored.bare]
    · rw [hart, sameBus]
      exact mirrored.ram
  · -- RAM and the CSRs that the exchange leaves out are as before, and as in the reference.
    have touched : simulator.executed.bus.touched = true := served.touched
    rw [touched]
    apply checkReference_served sameReference checkedWired checkedClear
    · rw [hart, sameHart]
      exact served.csrs.symm
    · exact bare
    · rw [sameBus]
      simpa only [executed, served.ram] using ram

theorem executed_of_error (synced : simulator.InStep) (fetched : simulator.FetchesRam)
    {fault : Fault} (failed : (simulator.hart.step simulator.bus).result = .error fault) :
    simulator.executed.InStep := by
  have untouched : simulator.executed = simulator := by
    obtain ⟨outcome, _⟩ := Hart.step_error failed
    unfold executed
    rw [outcome]
    obtain ⟨_, _, shape⟩ | ⟨_, _, shape⟩ | ⟨_, _, outside, found, _⟩ :=
      simulator.bus.read_cases simulator.hart.pc .word .fetch
    · rw [shape]
    · rw [shape]
    · rw [fetched outside] at found
      cases found
  rwa [untouched]

theorem cycle_inStep (synced : simulator.InStep) (fetched : simulator.FetchesRam) (echo : Bool) :
    (simulator.cycle echo).simulator.InStep ∧ Quiet (simulator.cycle echo).output := by
  have logged := Hart.step_quiet simulator.hart simulator.bus
  -- One case for each way in which a cycle can go on from the step.
  cases outcome : (simulator.hart.step simulator.bus).result with
  | ok retirement =>
      obtain ⟨retired, quiet⟩ := retire_inStep simulator.executed echo
        (simulator.hart.step simulator.bus).context retirement
        (compare_inStep synced fetched outcome)
      rw [cycle_of_ok simulator echo outcome]
      exact ⟨retired, logged.append quiet⟩
  | error fault =>
      have unchanged := executed_of_error synced fetched outcome
      cases fault with
      | unsupportedTrap pc selector vector =>
          rw [cycle_of_trap simulator echo outcome]
          exact ⟨⟨unchanged.wired, unchanged.clear, unchanged.attached⟩, logged⟩
      | invalidInstruction | memory =>
          obtain ⟨failed, quiet⟩ := fail_inStep unchanged echo
            (simulator.hart.step simulator.bus).context _
          rw [cycle_of_error simulator echo outcome (by simp)]
          exact ⟨failed, logged.append quiet⟩

/-- In none of the next `count` cycles of a run does a device serve the word of the instruction. -/
def FetchesRamFor {ρ : Type} [ReferenceModel ρ] (echo : Bool) : Nat → Simulator ρ → Prop
  | 0, _ => True
  | count + 1, simulator =>
      let done := simulator.cycle echo
      simulator.FetchesRam ∧
        (done.trap = none → done.simulator.state.phase = .running →
          FetchesRamFor echo count done.simulator)

theorem execute_inStep {echo : Bool} {count : Nat} (synced : simulator.InStep)
    (fetched : FetchesRamFor echo count simulator) :
    (execute echo count simulator #[]).simulator.InStep ∧
      Quiet (execute echo count simulator #[]).output.toList := by
  induction count generalizing simulator with
  | zero => exact ⟨synced, quiet_nil⟩
  | succ count ih =>
      obtain ⟨inRam, later⟩ := fetched
      obtain ⟨stepped, quiet⟩ := cycle_inStep synced inRam echo
      simp only [execute]
      split
      · exact ⟨stepped, by simpa using quiet⟩
      · rename_i serviced
        split
        · rename_i running
          obtain ⟨finished, silent⟩ := ih stepped (later serviced running)
          rw [execute_output, (execute_output_irrelevant echo count _ _ #[]).1]
          exact ⟨finished, by simpa using quiet.append silent⟩
        · exact ⟨stepped, by simpa using quiet⟩

/-- However many cycles are executed, the reference has the hart's registers, program counter and
CSRs, all of them, and the simulator's RAM, and no mismatch is reported. -/
theorem execute_keeps_reference_in_step (attached : simulator.reference = some model)
    (reachable : model.Reachable) (hart : model.hart = simulator.hart)
    (ram : model.bus.ram.Same simulator.bus.ram) (clear : simulator.bus.touched = false)
    (echo : Bool) (count : Nat) (fetched : FetchesRamFor echo count simulator) :
    let stretch := execute echo count simulator #[]
    (∃ after, stretch.simulator.reference = some after ∧ after.hart = stretch.simulator.hart ∧
        after.bus.ram.Same stretch.simulator.bus.ram) ∧
      stretch.simulator.bus.touched = false ∧
      ∀ mismatch pc, Output.log (.mismatch mismatch pc) ∉ stretch.output.toList := by
  intro stretch
  have sound := reachable.sound
  have synced : simulator.InStep :=
    ⟨hart ▸ sound.wired, clear, model, attached, sound.bare, hart, ram⟩
  obtain ⟨⟨_, untouched, after, same, _, registers, contents⟩, quiet⟩ :=
    execute_inStep synced fetched
  refine ⟨⟨after, same, registers, contents⟩, untouched, ?_⟩
  intro mismatch pc reported
  have silent := quiet _ reported
  cases silent

/-- A byte stored through `ra`, an addition and a halt. -/
def sampleProgram : List UInt8 :=
  [0x00008023, 0x00000513, 0x00100073].flatMap LittleEndian.wordBytes

/-- A hart at the start of RAM whose `ra` points at the serial line. -/
def sampleHart : Hart :=
  (Hart.reset Hart.resetVector).set Reg.ra Peripheral.serialBase

def sampleReference : Interpreter :=
  ReferenceModel.setRegisters
    ((Interpreter.new Hart.resetVector 16).copyMemory Hart.resetVector sampleProgram).1
    (.ofHart sampleHart)

def sampleSimulator : Simulator Interpreter where
  hart := sampleHart
  bus := { ram := sampleReference.bus.ram, devices := Peripheral.defaults }
  state := { phase := .running }
  config := {}
  image := ⟨Hart.resetVector, Hart.resetVector, 16⟩
  ring := Ring.new 0
  reference := some sampleReference

/-- A device access, a plain instruction and a halt, with the reference in step all along. -/
theorem serial_store_keeps_reference_in_step :
    (execute false 3 sampleSimulator #[]).simulator.state.phase = .ended ∧
      ∃ after, (execute false 3 sampleSimulator #[]).simulator.reference = some after ∧
        after.hart = (execute false 3 sampleSimulator #[]).simulator.hart := by
  have ended : (execute false 3 sampleSimulator #[]).simulator.state.phase = .ended := by
    decide +kernel
  have reachable : sampleReference.Reachable := ((Interpreter.Reachable.new _ _).copyMemory _ _)
    |>.setRegisters _
  have hart : sampleReference.hart = sampleSimulator.hart := by decide
  have fetched : FetchesRamFor false 3 sampleSimulator :=
    ⟨fun _ => rfl, fun _ _ => ⟨fun _ => rfl, fun _ _ => ⟨fun _ => rfl, fun _ _ => trivial⟩⟩⟩
  obtain ⟨⟨after, attached, registers, _⟩, _⟩ :=
    execute_keeps_reference_in_step rfl reachable hart (Memory.Same.refl _) rfl false 3 fetched
  exact ⟨ended, after, attached, registers⟩

end HartScope.Simulator
