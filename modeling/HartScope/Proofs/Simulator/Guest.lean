import HartScope.Proofs.Hart.PreciseFaults
import HartScope.Proofs.Simulator.Stages

/-!
The machine that the guest program runs on: the hart, its bus and the run state, without anything
that watches them.  A cycle of the simulator is a cycle of this machine, and the observers have one
say in it, the verdict of the reference.
-/

namespace HartScope

structure Guest where
  hart : Hart
  bus : Bus Peripheral
  state : RunState

def Hart.takePending (hart : Hart) : Hart :=
  match hart.csrs.pendingInterrupt? with
  | none => hart
  | some cause => hart.enterTrap cause

/-- The interrupt that the hart enters after an instruction that left the program in `state`. -/
def Hart.entered? (hart : Hart) (state : RunState) : Option UInt64 :=
  if state.phase = .running then hart.csrs.pendingInterrupt? else none

theorem Hart.step_context_pc {δ : Type} [Device δ] (hart : Hart) (bus : Bus δ) :
    (hart.step bus).context.pc = hart.pc := by
  simp only [step]
  split <;> rfl

def RunState.retired (state : RunState) (pc : UInt64) : Retirement → RunState
  | .next => state
  | .halt value => .ended pc value

theorem RunState.unfinished_of_running {state : RunState} (running : state.phase = .running) :
    state.isFinished = false := by
  simp [isFinished, running]

namespace Guest

/-- The trap that nothing can service, if the next instruction raises one. -/
def trap? (guest : Guest) : Option SimulatorError :=
  match (guest.hart.step guest.bus).result with
  | .error (.unsupportedTrap pc selector vector) => some (.unsupportedTrap pc selector vector)
  | _ => none

/-- The run state after the next instruction.  A divergence from the reference overrides what the
instruction itself asks for. -/
def verdict (guest : Guest) (diverges : Bool) : RunState :=
  match (guest.hart.step guest.bus).result with
  | .error _ => .aborted guest.hart.pc RunState.abortValue
  | .ok retirement =>
      if diverges then .aborted guest.hart.pc RunState.abortValue
      else guest.state.retired guest.hart.pc retirement

def conclude (guest : Guest) : Guest :=
  if guest.state.phase = .running then
    ⟨guest.hart.takePending, guest.bus.update, guest.state⟩
  else guest

def cycle (guest : Guest) (diverges : Bool) : Guest :=
  let step := guest.hart.step guest.bus
  let state := guest.verdict diverges
  match guest.trap? with
  | some _ => ⟨step.hart, step.bus, state⟩
  | none => conclude ⟨step.hart, { step.bus with touched := false }, state⟩

theorem trap?_of_ok (guest : Guest) {retirement : Retirement}
    (outcome : (guest.hart.step guest.bus).result = .ok retirement) : guest.trap? = none := by
  simp only [trap?, outcome]

theorem verdict_of_error (guest : Guest) {fault : Fault}
    (outcome : (guest.hart.step guest.bus).result = .error fault) (diverges : Bool) :
    guest.verdict diverges = .aborted guest.hart.pc RunState.abortValue := by
  simp only [verdict, outcome]

theorem verdict_of_ok (guest : Guest) {retirement : Retirement}
    (outcome : (guest.hart.step guest.bus).result = .ok retirement) (diverges : Bool) :
    guest.verdict diverges =
      if diverges then .aborted guest.hart.pc RunState.abortValue
      else guest.state.retired guest.hart.pc retirement := by
  simp only [verdict, outcome]

theorem conclude_state (guest : Guest) : guest.conclude.state = guest.state := by
  unfold conclude
  split <;> rfl

theorem conclude_clear (guest : Guest) (clear : guest.bus.touched = false) :
    guest.conclude.bus.touched = false := by
  unfold conclude
  split <;> exact clear

theorem cycle_state (guest : Guest) (diverges : Bool) :
    (guest.cycle diverges).state = guest.verdict diverges := by
  simp only [cycle]
  split
  · rfl
  · exact conclude_state _

/-- A program that was running goes on, or has finished. -/
theorem verdict_settled (guest : Guest) (running : guest.state.phase = .running) (diverges : Bool) :
    (guest.verdict diverges).phase = .running ∨ (guest.verdict diverges).isFinished = true := by
  cases outcome : (guest.hart.step guest.bus).result with
  | error fault =>
      rw [guest.verdict_of_error outcome]
      exact .inr rfl
  | ok retirement =>
      rw [guest.verdict_of_ok outcome]
      cases diverges with
      | true => exact .inr rfl
      | false =>
          cases retirement with
          | next => exact .inl running
          | halt value => exact .inr rfl

theorem verdict_of_trap (guest : Guest) {trap : SimulatorError} (raised : guest.trap? = some trap)
    (diverges : Bool) : (guest.verdict diverges).isFinished = true := by
  cases outcome : (guest.hart.step guest.bus).result with
  | ok retirement =>
      rw [guest.trap?_of_ok outcome] at raised
      cases raised
  | error fault =>
      rw [guest.verdict_of_error outcome]
      rfl

theorem cycle_hart (guest : Guest) (diverges : Bool) :
    (guest.cycle diverges).hart =
      match (guest.hart.step guest.bus).hart.entered? (guest.verdict diverges) with
      | none => (guest.hart.step guest.bus).hart
      | some cause => (guest.hart.step guest.bus).hart.enterTrap cause := by
  simp only [cycle, Hart.entered?]
  cases raised : guest.trap? with
  | some trap =>
      have finished := guest.verdict_of_trap raised diverges
      have stopped : (guest.verdict diverges).phase ≠ .running := by
        intro running
        rw [RunState.unfinished_of_running running] at finished
        cases finished
      rw [if_neg stopped]
  | none =>
      by_cases running : (guest.verdict diverges).phase = .running
      · simp only [conclude, running, if_true, Hart.takePending]
      · simp only [conclude, running, if_false]

end Guest

namespace Simulator

variable {ρ : Type}

def guest (simulator : Simulator ρ) : Guest :=
  ⟨simulator.hart, simulator.bus, simulator.state⟩

/-- Nothing has been counted, and a reference is attached if one was before. -/
structure Kept (before after : Simulator ρ) : Prop where
  stats : after.stats = before.stats
  attached : after.reference.isSome = before.reference.isSome

theorem Kept.trans {first second third : Simulator ρ} (left : first.Kept second)
    (right : second.Kept third) : first.Kept third :=
  ⟨right.stats.trans left.stats, right.attached.trans left.attached⟩

theorem traceCalls_guest (simulator : Simulator ρ) (context : StepContext) :
    (simulator.traceCalls context).1.guest = simulator.guest ∧
      simulator.Kept (simulator.traceCalls context).1 := by
  obtain ⟨tracer, shape⟩ := simulator.traceCalls_frame context
  rw [shape]
  exact ⟨rfl, rfl, rfl⟩

variable [ReferenceModel ρ]

/-- What the reference will disagree about after the next instruction. -/
def mismatches (simulator : Simulator ρ) : List Mismatch :=
  let step := simulator.hart.step simulator.bus
  match simulator.reference, step.result with
  | some model, .ok _ =>
      (Lockstep.check model step.hart simulator.hart.pc step.bus.touched).mismatches
  | _, _ => []

def diverges (simulator : Simulator ρ) : Bool :=
  !simulator.mismatches.isEmpty

theorem diverges_of_unchecked {simulator : Simulator ρ} (unchecked : simulator.reference = none) :
    simulator.diverges = false := by
  simp [diverges, mismatches, unchecked]

theorem checkReference_guest (simulator : Simulator ρ) (pc : UInt64) (skip : Bool) :
    (simulator.checkReference pc skip).1.guest =
        ⟨simulator.hart, simulator.bus,
          match simulator.reference with
          | none => simulator.state
          | some model =>
              if (Lockstep.check model simulator.hart pc skip).mismatches.isEmpty then
                simulator.state
              else .aborted pc RunState.abortValue⟩ ∧
      simulator.Kept (simulator.checkReference pc skip).1 := by
  unfold checkReference
  cases attached : simulator.reference with
  | none => exact ⟨rfl, rfl, rfl⟩
  | some model =>
      have present : simulator.reference.isSome = true := by rw [attached]; rfl
      dsimp only
      split <;> exact ⟨rfl, rfl, present.symm⟩

theorem takeInterrupt_guest (simulator : Simulator ρ) :
    simulator.takeInterrupt.1.guest =
        ⟨simulator.hart.takePending, simulator.bus, simulator.state⟩ ∧
      simulator.Kept simulator.takeInterrupt.1 := by
  unfold takeInterrupt Hart.takePending
  cases simulator.hart.csrs.pendingInterrupt? with
  | none => exact ⟨rfl, rfl, rfl⟩
  | some cause => exact ⟨rfl, rfl, Option.isSome_map⟩

theorem endCycle_of_running {simulator : Simulator ρ}
    (running : simulator.state.phase = .running) :
    simulator.endCycle =
      (simulator.pollWatchpoints.1.updateDevices.takeInterrupt.1,
        simulator.pollWatchpoints.2 ++
          simulator.pollWatchpoints.1.updateDevices.takeInterrupt.2) := by
  have still : simulator.pollWatchpoints.1.state.phase = .running := by
    obtain ⟨pool, polled⟩ := simulator.pollWatchpoints_frame
    rw [polled]
    exact running
  exact if_pos still

theorem endCycle_of_finished {simulator : Simulator ρ}
    (finished : simulator.state.phase ≠ .running) :
    simulator.endCycle = simulator.pollWatchpoints := by
  have still : simulator.pollWatchpoints.1.state.phase ≠ .running := by
    obtain ⟨pool, polled⟩ := simulator.pollWatchpoints_frame
    rw [polled]
    exact finished
  exact if_neg still

theorem endCycle_guest (simulator : Simulator ρ) :
    simulator.endCycle.1.guest = simulator.guest.conclude ∧
      simulator.Kept simulator.endCycle.1 := by
  obtain ⟨pool, polled⟩ := simulator.pollWatchpoints_frame
  by_cases running : simulator.state.phase = .running
  · rw [endCycle_of_running running, polled, Guest.conclude,
      if_pos (show simulator.guest.state.phase = _ from running)]
    obtain ⟨guest, stats, attached⟩ :=
      takeInterrupt_guest (updateDevices { simulator with watchpoints := pool })
    exact ⟨guest, stats, attached⟩
  · rw [endCycle_of_finished running, polled, Guest.conclude,
      if_neg (show simulator.guest.state.phase ≠ _ from running)]
    exact ⟨rfl, rfl, rfl⟩

theorem compared_guest (simulator : Simulator ρ) (echo : Bool) {retirement : Retirement}
    (outcome : (simulator.hart.step simulator.bus).result = .ok retirement) {context : StepContext}
    (place : context.pc = simulator.hart.pc) :
    let ready := simulator.executed.beforeCheck echo context retirement
    let compared := (ready.checkReference context.pc simulator.executed.bus.touched).1
    compared.guest =
        ⟨simulator.executed.hart, { simulator.executed.bus with touched := false },
          simulator.guest.verdict simulator.diverges⟩ ∧
      simulator.countInstruction.Kept compared := by
  intro ready compared
  obtain ⟨guest, kept⟩ := ready.checkReference_guest context.pc simulator.executed.bus.touched
  -- What the instruction asked for is in place when the comparison overrides it.
  have asked : ready.state = simulator.state.retired context.pc retirement := by
    cases retirement <;> rfl
  obtain ⟨state, ring, shape⟩ := simulator.executed.beforeCheck_frame echo context retirement
  change ready = _ at shape
  refine ⟨guest.trans ?_, Kept.trans ?_ kept⟩
  · rw [asked, place, shape]
    simp only [executed, Guest.verdict, Simulator.guest, outcome, diverges, mismatches]
    cases simulator.reference with
    | none => rfl
    | some model =>
        cases agreed : (Lockstep.check model (simulator.hart.step simulator.bus).hart
          simulator.hart.pc (simulator.hart.step simulator.bus).bus.touched).mismatches.isEmpty <;>
            simp [agreed]
  · rw [shape]
    exact ⟨rfl, rfl⟩

theorem retire_guest (simulator : Simulator ρ) (echo : Bool) {retirement : Retirement}
    (outcome : (simulator.hart.step simulator.bus).result = .ok retirement) {context : StepContext}
    (place : context.pc = simulator.hart.pc) :
    (simulator.executed.retire echo context retirement).1.guest =
        simulator.guest.cycle simulator.diverges ∧
      simulator.countInstruction.Kept (simulator.executed.retire echo context retirement).1 := by
  have untrapped : simulator.guest.trap? = none := simulator.guest.trap?_of_ok outcome
  obtain ⟨comparedGuest, compared⟩ := simulator.compared_guest echo outcome place
  rw [retire_eq]
  dsimp only at comparedGuest compared ⊢
  generalize (simulator.executed.beforeCheck echo context retirement).checkReference context.pc
    simulator.executed.bus.touched = comparison at comparedGuest compared ⊢
  obtain ⟨tracedGuest, traced⟩ := comparison.1.traceCalls_guest context
  obtain ⟨endedGuest, ended⟩ := (comparison.1.traceCalls context).1.endCycle_guest
  refine ⟨?_, (compared.trans traced).trans ended⟩
  rw [endedGuest, tracedGuest, comparedGuest]
  simp only [Guest.cycle, untrapped]
  rfl

theorem fail_guest (simulator : Simulator ρ) (echo : Bool) {fault : Fault}
    (outcome : (simulator.hart.step simulator.bus).result = .error fault)
    (serviceable : simulator.guest.trap? = none) {context : StepContext}
    (place : context.pc = simulator.hart.pc) :
    (simulator.executed.fail echo context fault).1.guest =
        simulator.guest.cycle simulator.diverges ∧
      simulator.countInstruction.Kept (simulator.executed.fail echo context fault).1 := by
  obtain ⟨endedGuest, ended⟩ := (simulator.executed.beforeEnd echo context).endCycle_guest
  rw [fail_eq]
  dsimp only
  have verdict : simulator.guest.verdict simulator.diverges =
      .aborted context.pc RunState.abortValue := by
    rw [place]
    exact simulator.guest.verdict_of_error outcome _
  have counted : simulator.countInstruction.Kept (simulator.executed.beforeEnd echo context) :=
    ⟨rfl, rfl⟩
  refine ⟨?_, counted.trans ended⟩
  simp only [endedGuest, Guest.cycle, serviceable, verdict]
  rfl

/-- A cycle of the simulator is a cycle of the guest's machine, and counts its instruction unless it
raised a trap that nothing can service. -/
theorem cycle_guest (simulator : Simulator ρ) (echo : Bool) :
    (simulator.cycle echo).simulator.guest = simulator.guest.cycle simulator.diverges ∧
      (simulator.cycle echo).trap = simulator.guest.trap? ∧
      Kept
        (match simulator.guest.trap? with
        | some _ => simulator
        | none => simulator.countInstruction)
        (simulator.cycle echo).simulator := by
  have place := simulator.hart.step_context_pc simulator.bus
  cases outcome : (simulator.hart.step simulator.bus).result with
  | ok retirement =>
      have untrapped : simulator.guest.trap? = none := simulator.guest.trap?_of_ok outcome
      obtain ⟨guest, kept⟩ := simulator.retire_guest echo outcome place
      rw [cycle_of_ok simulator echo outcome, untrapped]
      exact ⟨guest, rfl, kept⟩
  | error fault =>
      cases fault with
      | unsupportedTrap pc selector vector =>
          have located : pc = simulator.hart.pc := (Hart.step_error outcome).2
          have trapped : simulator.guest.trap? = some (.unsupportedTrap pc selector vector) := by
            simp only [Guest.trap?, Simulator.guest, outcome]
          have verdict : simulator.guest.verdict simulator.diverges =
              .aborted pc RunState.abortValue := by
            rw [located]
            exact simulator.guest.verdict_of_error outcome _
          rw [cycle_of_trap simulator echo outcome]
          simp only [Guest.cycle, trapped, verdict]
          exact ⟨rfl, trivial, rfl, rfl⟩
      | invalidInstruction | memory =>
          have untrapped : simulator.guest.trap? = none := by
            simp only [Guest.trap?, Simulator.guest, outcome]
          obtain ⟨guest, kept⟩ := simulator.fail_guest echo outcome untrapped place
          rw [cycle_of_error simulator echo outcome (by simp), untrapped]
          exact ⟨guest, rfl, kept⟩

theorem cycle_verdict (simulator : Simulator ρ) (echo : Bool) :
    (simulator.cycle echo).simulator.state = simulator.guest.verdict simulator.diverges :=
  (congrArg Guest.state (simulator.cycle_guest echo).1).trans (Guest.cycle_state _ _)

end Simulator

end HartScope
