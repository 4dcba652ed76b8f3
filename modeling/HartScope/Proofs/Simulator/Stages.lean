import HartScope.Proofs.Bus.Transaction
import HartScope.Simulator.Cycle

/-!
What the stages of a cycle leave alone.  Recording, tracing and the watchpoints each change one field
of the simulator, and none of them reports a divergence from the reference.
-/

namespace HartScope

/-- A disagreement with the reference, or a reference that could not follow. -/
def Output.isDivergence : Output → Bool
  | .log (.mismatch _ _) | .log (.referenceStopped _) => true
  | _ => false

def Quiet (output : List Output) : Prop :=
  ∀ entry ∈ output, entry.isDivergence = false

theorem quiet_nil : Quiet [] := by
  intro entry member
  cases member

theorem Quiet.append {first second : List Output} (left : Quiet first) (right : Quiet second) :
    Quiet (first ++ second) := by
  intro entry member
  obtain before | behind := List.mem_append.mp member
  · exact left entry before
  · exact right entry behind

theorem Quiet.cons {entry : Output} {rest : List Output} (first : entry.isDivergence = false)
    (quiet : Quiet rest) : Quiet (entry :: rest) := by
  intro other member
  obtain rfl | behind := List.mem_cons.mp member
  · exact first
  · exact quiet other behind

theorem quiet_map {α : Type} {report : α → Output}
    (harmless : ∀ entry, (report entry).isDivergence = false) (entries : List α) :
    Quiet (entries.map report) := by
  intro output member
  obtain ⟨entry, _, rfl⟩ := List.mem_map.mp member
  exact harmless entry

section Hart

variable {δ : Type} [Device δ]

theorem Bus.read_quiet (bus : Bus δ) (address : UInt64) (width : Width) (kind : AccessKind) :
    Quiet (bus.read address width kind).output := by
  obtain ⟨_, _, shape⟩ | ⟨_, _, shape⟩ | ⟨_, _, _, _, shape⟩ := bus.read_cases address width kind
  · rw [shape]
    exact quiet_nil
  · rw [shape]
    exact quiet_nil
  · rw [shape]
    exact Quiet.cons rfl quiet_nil

theorem Bus.write_quiet (bus : Bus δ) (address : UInt64) (width : Width) (value : UInt64) :
    Quiet (bus.write address width value).output := by
  obtain ⟨_, _, shape⟩ | ⟨_, _, shape⟩ | ⟨_, _, _, _, shape⟩ := bus.write_cases address width value
  · rw [shape]
    exact quiet_nil
  · rw [shape]
    exact quiet_nil
  · rw [shape]
    exact Quiet.cons rfl (Quiet.cons rfl quiet_nil)

theorem Hart.execute_quiet (hart : Hart) (bus : Bus δ) (instruction : Instruction) :
    Quiet (hart.execute bus instruction).output := by
  cases instruction with
  | load form rd rs1 imm =>
      have quiet := bus.read_quiet (hart.address rs1 imm) form.width .read
      simp only [execute, executeLoad]
      split <;> exact quiet
  | store width rs1 rs2 imm =>
      have quiet := bus.write_quiet (hart.address rs1 imm) width (hart.get rs2 &&& width.mask)
      simp only [execute, executeStore]
      split <;> exact quiet
  | ecall =>
      simp only [execute, executeEnvironmentCall]
      split
      · exact Quiet.cons rfl quiet_nil
      · exact quiet_nil
  | lui | auipc | jal | jalr | branch | opImm | op | fence | ebreak | mret | csr => exact quiet_nil

theorem Hart.step_quiet (hart : Hart) (bus : Bus δ) : Quiet (hart.step bus).output := by
  have quiet := bus.read_quiet hart.pc .word .fetch
  simp only [step]
  split
  · exact quiet
  · simp only [executeWord]
    split
    · exact quiet.append quiet_nil
    · exact quiet.append (execute_quiet _ _ _)

end Hart

namespace Simulator

variable {ρ : Type} (simulator : Simulator ρ)

theorem recordLine_quiet (echo : Bool) (context : StepContext) :
    Quiet (simulator.recordLine echo context).2 := by
  simp only [recordLine]
  split
  · exact Quiet.cons rfl quiet_nil
  · exact quiet_nil

theorem traceCalls_frame (context : StepContext) :
    ∃ tracer, (simulator.traceCalls context).1 = { simulator with tracer := tracer } := by
  unfold traceCalls
  split
  · exact ⟨_, rfl⟩
  · exact ⟨simulator.tracer, rfl⟩

theorem traceCalls_quiet (context : StepContext) : Quiet (simulator.traceCalls context).2 := by
  unfold traceCalls
  split
  · exact quiet_map (fun _ => rfl) _
  · exact quiet_nil

theorem pollWatchpoints_frame :
    ∃ pool, simulator.pollWatchpoints.1 = { simulator with watchpoints := pool } := by
  unfold pollWatchpoints
  split
  · exact ⟨_, rfl⟩
  · exact ⟨simulator.watchpoints, rfl⟩

theorem pollWatchpoints_quiet : Quiet simulator.pollWatchpoints.2 := by
  unfold pollWatchpoints
  split
  · exact quiet_map (fun _ => rfl) _
  · exact quiet_nil

/-- The simulator as the comparison with the reference finds it. -/
def beforeCheck (echo : Bool) (context : StepContext) (retirement : Retirement) : Simulator ρ :=
  ((simulator.settle context.pc retirement).countInstruction.recordLine echo context).1.takeTouched.2

theorem beforeCheck_frame (echo : Bool) (context : StepContext) (retirement : Retirement) :
    ∃ state ring, simulator.beforeCheck echo context retirement =
      { simulator with
        bus := { simulator.bus with touched := false }
        state := state
        stats := simulator.stats.countInstruction
        ring := ring } := by
  cases retirement with
  | next => exact ⟨_, _, rfl⟩
  | halt value => exact ⟨_, _, rfl⟩

theorem retire_eq [ReferenceModel ρ] (echo : Bool) (context : StepContext)
    (retirement : Retirement) :
    simulator.retire echo context retirement =
      let ready := simulator.beforeCheck echo context retirement
      let checked := ready.checkReference context.pc simulator.bus.touched
      let traced := checked.1.traceCalls context
      let ended := traced.1.endCycle
      (ended.1, (simulator.recordLine echo context).2 ++ checked.2 ++ traced.2 ++ ended.2) := by
  cases retirement with
  | next => rfl
  | halt value => rfl

/-- The simulator as the end of a cycle finds it after an instruction that failed. -/
def beforeEnd (echo : Bool) (context : StepContext) : Simulator ρ :=
  ((simulator.abort context.pc).countInstruction.recordLine echo context).1.takeTouched.2

theorem fail_eq [ReferenceModel ρ] (echo : Bool) (context : StepContext) (fault : Fault) :
    simulator.fail echo context fault =
      let ended := (simulator.beforeEnd echo context).endCycle
      (ended.1, .log (.fault fault) :: (simulator.recordLine echo context).2 ++ ended.2) :=
  rfl

/-- The simulator between the execution of an instruction and everything that watches it. -/
def executed : Simulator ρ :=
  { simulator with
    hart := (simulator.hart.step simulator.bus).hart
    bus := (simulator.hart.step simulator.bus).bus }

theorem cycle_of_ok [ReferenceModel ρ] (echo : Bool) {retirement : Retirement}
    (outcome : (simulator.hart.step simulator.bus).result = .ok retirement) :
    simulator.cycle echo =
      let step := simulator.hart.step simulator.bus
      let done := simulator.executed.retire echo step.context retirement
      { simulator := done.1, output := step.output ++ done.2 } := by
  simp only [cycle, outcome]
  rfl

theorem cycle_of_trap [ReferenceModel ρ] (echo : Bool) {pc selector vector : UInt64}
    (outcome : (simulator.hart.step simulator.bus).result =
      .error (.unsupportedTrap pc selector vector)) :
    simulator.cycle echo =
      { simulator := simulator.executed.abort pc
        output := (simulator.hart.step simulator.bus).output
        trap := some (.unsupportedTrap pc selector vector) } := by
  simp only [cycle, outcome]
  rfl

theorem cycle_of_error [ReferenceModel ρ] (echo : Bool) {fault : Fault}
    (outcome : (simulator.hart.step simulator.bus).result = .error fault)
    (serviceable : ∀ pc selector vector, fault ≠ .unsupportedTrap pc selector vector) :
    simulator.cycle echo =
      let step := simulator.hart.step simulator.bus
      let done := simulator.executed.fail echo step.context fault
      { simulator := done.1, output := step.output ++ done.2 } := by
  cases fault with
  | unsupportedTrap pc selector vector => exact absurd rfl (serviceable pc selector vector)
  | invalidInstruction | memory =>
      simp only [cycle, outcome]
      rfl

end Simulator

end HartScope
