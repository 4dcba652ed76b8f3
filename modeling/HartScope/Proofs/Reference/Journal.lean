import HartScope.Proofs.Hart.DeviceAccess
import HartScope.Proofs.Simulator.Cycles

/-!
A reference that keeps a journal of the calls that it receives.  It answers like the model inside, so
a simulator goes through the same cycles with it, and the journal shows what each cycle asks of the
reference.
-/

namespace HartScope

inductive ReferenceCall where
  | copyMemory (address : UInt64) (bytes : List UInt8)
  | setRegisters (context : RegisterContext)
  | getRegisters
  | execute (count : Nat)
  | raiseInterrupt (cause : UInt64)
deriving DecidableEq, Repr

/-- A reference model with the calls that it has received, first one first. -/
structure Journal (ρ : Type) where
  model : ρ
  calls : List ReferenceCall := []

namespace Journal

variable {ρ : Type} [ReferenceModel ρ]

instance : ReferenceModel (Journal ρ) where
  copyMemory journal address bytes :=
    let (model, result) := ReferenceModel.copyMemory journal.model address bytes
    (⟨model, journal.calls ++ [.copyMemory address bytes]⟩, result)
  setRegisters journal context :=
    ⟨ReferenceModel.setRegisters journal.model context, journal.calls ++ [.setRegisters context]⟩
  getRegisters journal :=
    let (context, model) := ReferenceModel.getRegisters journal.model
    (context, ⟨model, journal.calls ++ [.getRegisters]⟩)
  execute journal count :=
    let (model, events) := ReferenceModel.execute journal.model count
    (⟨model, journal.calls ++ [.execute count]⟩, events)
  raiseInterrupt journal cause :=
    ⟨ReferenceModel.raiseInterrupt journal.model cause, journal.calls ++ [.raiseInterrupt cause]⟩

end Journal

/-- What a comparison asks of the reference. -/
def Lockstep.calls (hart : Hart) (skip : Bool) : List ReferenceCall :=
  if skip then [.setRegisters (.ofHart hart)] else [.execute 1, .getRegisters]

theorem Lockstep.check_journaled {ρ : Type} [ReferenceModel ρ] (model : ρ)
    (calls : List ReferenceCall) (hart : Hart) (pc : UInt64) (skip : Bool) :
    check (Journal.mk model calls) hart pc skip =
      ⟨⟨(check model hart pc skip).model, calls ++ Lockstep.calls hart skip⟩,
        (check model hart pc skip).mismatches, (check model hart pc skip).events⟩ := by
  cases skip with
  | true => rfl
  | false => simp [check, ReferenceModel.execute, ReferenceModel.getRegisters, Lockstep.calls]

namespace Simulator

variable {ρ : Type}

/-- The simulator with a journal in place of its reference. -/
def journaled (simulator : Simulator ρ) (calls : List ReferenceCall) : Simulator (Journal ρ) where
  hart := simulator.hart
  bus := simulator.bus
  state := simulator.state
  stats := simulator.stats
  watchpoints := simulator.watchpoints
  config := simulator.config
  image := simulator.image
  ring := simulator.ring
  tracer := simulator.tracer
  symbols := simulator.symbols
  reference := simulator.reference.map fun model => ⟨model, calls⟩

section Unchecked

variable (simulator : Simulator ρ) (calls : List ReferenceCall)

theorem traceCalls_journaled (context : StepContext) :
    (simulator.journaled calls).traceCalls context =
      ((simulator.traceCalls context).1.journaled calls, (simulator.traceCalls context).2) := by
  unfold traceCalls
  simp only [journaled]
  split <;> rfl

theorem pollWatchpoints_journaled :
    (simulator.journaled calls).pollWatchpoints =
      (simulator.pollWatchpoints.1.journaled calls, simulator.pollWatchpoints.2) := by
  unfold pollWatchpoints
  by_cases polled : (simulator.config.trace.watchpoints && !simulator.watchpoints.isEmpty) = true
  · rw [if_pos polled]
    exact if_pos polled
  · rw [if_neg polled]
    exact if_neg polled

theorem finish_journaled (stretch : Stretch ρ) :
    finish ⟨stretch.simulator.journaled calls, stretch.trap, stretch.output⟩ =
      ⟨(finish stretch).state.journaled calls, (finish stretch).result, (finish stretch).output⟩ := by
  cases raised : stretch.trap with
  | some trap => simp only [finish, raised]; rfl
  | none =>
      have same : (stretch.simulator.journaled calls).state = stretch.simulator.state := rfl
      cases finished : stretch.simulator.state.isFinished <;>
        simp only [finish, raised, same, finished] <;> rfl

end Unchecked

variable [ReferenceModel ρ] (simulator : Simulator ρ) (calls : List ReferenceCall)

theorem checkReference_journaled (pc : UInt64) (skip : Bool) :
    (simulator.journaled calls).checkReference pc skip =
      ((simulator.checkReference pc skip).1.journaled
          (calls ++ Lockstep.calls simulator.hart skip),
        (simulator.checkReference pc skip).2) := by
  unfold checkReference
  cases attached : simulator.reference with
  | none => simp [journaled, attached]
  | some model =>
      simp only [journaled, attached, Option.map_some, Lockstep.check_journaled]
      split <;> rfl

theorem takeInterrupt_journaled :
    (simulator.journaled calls).takeInterrupt =
      (simulator.takeInterrupt.1.journaled
          (calls ++ simulator.hart.csrs.pendingInterrupt?.toList.map .raiseInterrupt),
        simulator.takeInterrupt.2) := by
  unfold takeInterrupt
  simp only [journaled]
  cases simulator.hart.csrs.pendingInterrupt? with
  | none => simp
  | some cause =>
      simp only [Option.map_map]
      rfl

theorem endCycle_journaled :
    (simulator.journaled calls).endCycle =
      (simulator.endCycle.1.journaled
          (calls ++ (simulator.hart.entered? simulator.state).toList.map .raiseInterrupt),
        simulator.endCycle.2) := by
  obtain ⟨pool, polled⟩ := simulator.pollWatchpoints_frame
  unfold Hart.entered?
  by_cases running : simulator.state.phase = .running
  · have sameRunning : (simulator.journaled calls).state.phase = .running := running
    have interrupted := takeInterrupt_journaled
      (updateDevices { simulator with watchpoints := pool }) calls
    rw [endCycle_of_running sameRunning, endCycle_of_running running, pollWatchpoints_journaled,
      polled, if_pos running]
    exact congrArg (fun taken => (taken.1, simulator.pollWatchpoints.2 ++ taken.2)) interrupted
  · have sameFinished : (simulator.journaled calls).state.phase ≠ .running := running
    rw [endCycle_of_finished sameFinished, endCycle_of_finished running, pollWatchpoints_journaled,
      if_neg running]
    simp

theorem endCycle_state : simulator.endCycle.1.state = simulator.state :=
  (congrArg Guest.state simulator.endCycle_guest.1).trans simulator.guest.conclude_state

theorem retire_journaled (echo : Bool) (context : StepContext) (retirement : Retirement) :
    (simulator.journaled calls).retire echo context retirement =
      ((simulator.retire echo context retirement).1.journaled
          (calls ++ Lockstep.calls simulator.hart simulator.bus.touched ++
            (simulator.hart.entered?
              (simulator.retire echo context retirement).1.state).toList.map .raiseInterrupt),
        (simulator.retire echo context retirement).2) := by
  have ready : (simulator.journaled calls).beforeCheck echo context retirement =
      (simulator.beforeCheck echo context retirement).journaled calls := by
    cases retirement <;> rfl
  have readyHart : (simulator.beforeCheck echo context retirement).hart = simulator.hart := by
    cases retirement <;> rfl
  have flag : (simulator.journaled calls).bus.touched = simulator.bus.touched := rfl
  rw [retire_eq, retire_eq]
  dsimp only
  rw [ready, flag, endCycle_state]
  generalize simulator.beforeCheck echo context retirement = checked at readyHart ⊢
  have comparedHart : (checked.checkReference context.pc simulator.bus.touched).1.hart =
      simulator.hart :=
    (congrArg Guest.hart (checked.checkReference_guest _ _).1).trans readyHart
  rw [checkReference_journaled, readyHart]
  dsimp only
  generalize checked.checkReference context.pc simulator.bus.touched = compared at comparedHart ⊢
  have tracedHart : (compared.1.traceCalls context).1.hart = simulator.hart :=
    (congrArg Guest.hart (compared.1.traceCalls_guest context).1).trans comparedHart
  rw [traceCalls_journaled]
  dsimp only
  rw [endCycle_journaled, tracedHart]
  rfl

theorem fail_journaled (echo : Bool) (context : StepContext) (fault : Fault) :
    (simulator.journaled calls).fail echo context fault =
      ((simulator.fail echo context fault).1.journaled calls,
        (simulator.fail echo context fault).2) := by
  have ended := (simulator.beforeEnd echo context).endCycle_journaled calls
  have idle : ((simulator.beforeEnd echo context).hart.entered?
      (simulator.beforeEnd echo context).state) = none := rfl
  rw [idle, Option.toList_none, List.map_nil, List.append_nil] at ended
  rw [fail_eq, fail_eq]
  exact congrArg (fun done : _ × List Output =>
    (done.1, .log (.fault fault) :: (simulator.recordLine echo context).2 ++ done.2)) ended

/-- The interrupt that the hart enters after the next instruction. -/
def interrupt? : Option UInt64 :=
  (simulator.hart.step simulator.bus).hart.entered? (simulator.cycle false).simulator.state

/-- The calls that the next instruction makes.  The reference executes one instruction and is
compared if no device took part; otherwise it is given the hart's registers. -/
def referenceCalls : List ReferenceCall :=
  let step := simulator.hart.step simulator.bus
  match step.result with
  | .error _ => []
  | .ok _ =>
      Lockstep.calls step.hart (simulator.hart.reachesDevice simulator.bus) ++
        simulator.interrupt?.toList.map .raiseInterrupt

theorem cycle_journaled (clear : simulator.bus.touched = false) (echo : Bool) :
    (simulator.journaled calls).cycle echo =
      ⟨(simulator.cycle echo).simulator.journaled (calls ++ simulator.referenceCalls),
        (simulator.cycle echo).output, (simulator.cycle echo).trap⟩ := by
  have flag : simulator.executed.bus.touched = simulator.hart.reachesDevice simulator.bus :=
    simulator.hart.step_touched_of_clear clear
  have sameState := (simulator.cycle_echo_irrelevant false echo).1
  unfold referenceCalls interrupt?
  dsimp only
  rw [sameState]
  cases outcome : (simulator.hart.step simulator.bus).result with
  | ok retirement =>
      rw [cycle_of_ok simulator echo outcome, cycle_of_ok (simulator.journaled calls) echo outcome]
      have retired := simulator.executed.retire_journaled calls echo
        (simulator.hart.step simulator.bus).context retirement
      rw [flag, List.append_assoc] at retired
      exact congrArg (fun done : _ × List Output =>
        Cycle.mk done.1 ((simulator.hart.step simulator.bus).output ++ done.2) none) retired
  | error fault =>
      rw [List.append_nil]
      cases fault with
      | unsupportedTrap pc selector vector =>
          rw [cycle_of_trap simulator echo outcome,
            cycle_of_trap (simulator.journaled calls) echo outcome]
          rfl
      | invalidInstruction | memory =>
          rw [cycle_of_error simulator echo outcome (by simp),
            cycle_of_error (simulator.journaled calls) echo outcome (by simp)]
          exact congrArg (fun done : _ × List Output =>
            Cycle.mk done.1 ((simulator.hart.step simulator.bus).output ++ done.2) none)
            (simulator.executed.fail_journaled calls echo _ _)

theorem execute_journaled (clear : simulator.bus.touched = false) (echo : Bool) (count : Nat)
    (before : Array Output) :
    execute echo count (simulator.journaled calls) before =
      let stretch := execute echo count simulator before
      ⟨stretch.simulator.journaled (calls ++ (visited count simulator).flatMap referenceCalls),
        stretch.trap, stretch.output⟩ := by
  induction count generalizing simulator calls before with
  | zero => simp [execute, visited]
  | succ count ih =>
      have onward := simulator.next?_eq echo
      simp only [execute, simulator.cycle_journaled calls clear echo]
      cases raised : (simulator.cycle echo).trap with
      | some trap =>
          have last : simulator.next? = none := by simp [onward, raised]
          simp [visited_of_last last]
      | none =>
          by_cases running : (simulator.cycle echo).simulator.state.phase = .running
          · have continued : simulator.next? = some (simulator.cycle echo).simulator := by
              rw [onward, if_pos ⟨raised, running⟩]
            have sameRunning : ((simulator.cycle echo).simulator.journaled
                (calls ++ simulator.referenceCalls)).state.phase = .running := running
            rw [visited_of_next continued, List.flatMap_cons, ← List.append_assoc]
            simp only [if_pos running, if_pos sameRunning]
            exact ih _ _ (next?_clear continued) _
          · have last : simulator.next? = none := by simp [onward, running]
            have sameFinished : ((simulator.cycle echo).simulator.journaled
                (calls ++ simulator.referenceCalls)).state.phase ≠ .running := running
            simp [if_neg running, if_neg sameFinished, visited_of_last last]

/-- With a journal a run does what it does without, and the journal receives what its cycles ask of
the reference. -/
theorem run_journaled (clear : simulator.bus.touched = false) (budget : UInt64) :
    (simulator.journaled calls).run budget =
      let reply := simulator.run budget
      ⟨reply.state.journaled (calls ++ (simulator.cycles budget).flatMap referenceCalls),
        reply.result, reply.output⟩ := by
  have same : (simulator.journaled calls).state.isFinished = simulator.state.isFinished := rfl
  cases finished : simulator.state.isFinished with
  | true =>
      rw [run_of_finished finished, run_of_finished (same.trans finished)]
      simp [cycles, finished, Reply.note]
  | false =>
      have executed := (simulator.setPhase .running).execute_journaled calls clear
        (simulator.echoes budget) budget.toNat #[]
      have started : (simulator.journaled calls).setPhase .running =
        (simulator.setPhase .running).journaled calls := rfl
      have echoes : (simulator.journaled calls).echoes budget = simulator.echoes budget := rfl
      rw [run_of_unfinished finished, run_of_unfinished (same.trans finished), started, echoes,
        executed, finish_journaled]
      simp [cycles, finished]

end Simulator

end HartScope
