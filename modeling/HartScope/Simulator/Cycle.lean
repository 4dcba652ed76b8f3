import HartScope.Simulator.Basic

/-!
One cycle of the simulator: the hart executes one instruction, then the instruction is recorded,
checked against the reference and traced, the watchpoints are evaluated, and, if the program goes
on, the devices advance and a pending interrupt is taken.  Whatever a cycle writes is taken to arrive:
a writer that fails, which would end the cycle where it fails, is not among the outcomes.
-/

namespace HartScope

structure Cycle (ρ : Type) where
  simulator : Simulator ρ
  output : List Output
  /-- The trap that nothing can service, if the instruction raised one. -/
  trap : Option SimulatorError := none

namespace Simulator

variable {ρ : Type}

def abort (simulator : Simulator ρ) (pc : UInt64) : Simulator ρ :=
  { simulator with state := .aborted pc RunState.abortValue }

def countInstruction (simulator : Simulator ρ) : Simulator ρ :=
  { simulator with stats := simulator.stats.countInstruction }

/-- Puts an instruction into the ring, and prints it in a short run. -/
def recordLine (simulator : Simulator ρ) (echo : Bool) (context : StepContext) :
    Simulator ρ × List Output :=
  let entry : TraceEntry := ⟨context.pc, context.word⟩
  let ring :=
    if simulator.config.trace.instructions then simulator.ring.push entry else simulator.ring
  ({ simulator with ring := ring }, if echo then [.console (entry.line ++ "\n")] else [])

def takeTouched (simulator : Simulator ρ) : Bool × Simulator ρ :=
  let (touched, bus) := simulator.bus.takeTouched
  (touched, { simulator with bus := bus })

/-- Compares the hart with the reference after the instruction at `pc`; a mismatch aborts. -/
def checkReference [ReferenceModel ρ] (simulator : Simulator ρ) (pc : UInt64) (skip : Bool) :
    Simulator ρ × List Output :=
  match simulator.reference with
  | none => (simulator, [])
  | some model =>
      let check := Lockstep.check model simulator.hart pc skip
      let checked := { simulator with reference := some check.model }
      let log := check.events.map Output.log
      if check.mismatches.isEmpty then (checked, log)
      else
        (checked.abort pc,
          log ++ check.mismatches.map (fun mismatch => .console (mismatch.text ++ "\n")) ++
            [.console simulator.hart.dump])

def traceCalls (simulator : Simulator ρ) (context : StepContext) : Simulator ρ × List Output :=
  match simulator.config.trace.calls, simulator.symbols with
  | true, some symbols =>
      let (lines, tracer) :=
        simulator.tracer.step symbols context.pc context.word context.continuation
      ({ simulator with tracer := tracer }, lines.map fun line => .log (.transfer line))
  | _, _ => (simulator, [])

def pollWatchpoints (simulator : Simulator ρ) : Simulator ρ × List Output :=
  if simulator.config.trace.watchpoints && !simulator.watchpoints.isEmpty then
    let (reports, pool) := simulator.watchpoints.poll simulator.scope
    ({ simulator with watchpoints := pool },
      reports.map fun report => .console report.text)
  else (simulator, [])

/-- Enters a pending enabled interrupt, on the reference as well. -/
def takeInterrupt [ReferenceModel ρ] (simulator : Simulator ρ) : Simulator ρ × List Output :=
  match simulator.hart.csrs.pendingInterrupt? with
  | none => (simulator, [])
  | some cause =>
      ({ simulator with
          hart := simulator.hart.enterTrap cause
          reference := simulator.reference.map (ReferenceModel.raiseInterrupt · cause) },
        [.log (.interrupt cause)])

def updateDevices (simulator : Simulator ρ) : Simulator ρ :=
  { simulator with bus := simulator.bus.update }

/-- The end of a cycle: watchpoints, and what comes before the next instruction. -/
def endCycle [ReferenceModel ρ] (simulator : Simulator ρ) : Simulator ρ × List Output :=
  let (simulator, reports) := simulator.pollWatchpoints
  if simulator.state.phase = .running then
    let (simulator, log) := simulator.updateDevices.takeInterrupt
    (simulator, reports ++ log)
  else (simulator, reports)

def settle (simulator : Simulator ρ) (pc : UInt64) : Retirement → Simulator ρ
  | .next => simulator
  | .halt value => { simulator with state := .ended pc value }

def retire [ReferenceModel ρ] (simulator : Simulator ρ) (echo : Bool) (context : StepContext)
    (retirement : Retirement) : Simulator ρ × List Output :=
  let simulator := (simulator.settle context.pc retirement).countInstruction
  let (simulator, echoed) := simulator.recordLine echo context
  let (touched, simulator) := simulator.takeTouched
  let (simulator, checked) := simulator.checkReference context.pc touched
  let (simulator, traced) := simulator.traceCalls context
  let (simulator, ending) := simulator.endCycle
  (simulator, echoed ++ checked ++ traced ++ ending)

def fail [ReferenceModel ρ] (simulator : Simulator ρ) (echo : Bool) (context : StepContext)
    (fault : Fault) : Simulator ρ × List Output :=
  let simulator := (simulator.abort context.pc).countInstruction
  let (simulator, echoed) := simulator.recordLine echo context
  let (_, simulator) := simulator.takeTouched
  let (simulator, ending) := simulator.endCycle
  (simulator, .log (.fault fault) :: echoed ++ ending)

def cycle [ReferenceModel ρ] (simulator : Simulator ρ) (echo : Bool) : Cycle ρ :=
  let step := simulator.hart.step simulator.bus
  let simulator := { simulator with hart := step.hart, bus := step.bus }
  match step.result with
  | .ok retirement =>
      let (simulator, output) := simulator.retire echo step.context retirement
      { simulator := simulator, output := step.output ++ output }
  | .error (.unsupportedTrap pc selector vector) =>
      { simulator := simulator.abort pc
        output := step.output
        trap := some (.unsupportedTrap pc selector vector) }
  | .error fault =>
      let (simulator, output) := simulator.fail echo step.context fault
      { simulator := simulator, output := step.output ++ output }

end Simulator

end HartScope
