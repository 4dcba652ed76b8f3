import HartScope.Simulator.Cycle

/-!
Runs.  A run executes cycles until its budget is spent, the program stops, or a trap cannot be
serviced, and then reports how it ended.  As in a cycle, no writer fails.
-/

namespace HartScope

/-- What a stretch of cycles leaves behind. -/
structure Stretch (ρ : Type) where
  simulator : Simulator ρ
  trap : Option SimulatorError
  output : Array Output

namespace Simulator

variable {ρ : Type}

/-- Executes up to `budget` cycles and adds what leaves the simulator to `output`. -/
def execute [ReferenceModel ρ] (echo : Bool) :
    (budget : Nat) → Simulator ρ → (output : Array Output) → Stretch ρ
  | 0, simulator, output => ⟨simulator, none, output⟩
  | budget + 1, simulator, output =>
      let done := simulator.cycle echo
      let output := output ++ done.output
      match done.trap with
      | some trap => ⟨done.simulator, some trap, output⟩
      | none =>
          if done.simulator.state.phase = .running then
            execute echo budget done.simulator output
          else ⟨done.simulator, none, output⟩

/-- What has been put out before decides nothing. -/
theorem execute_output_irrelevant [ReferenceModel ρ] (echo : Bool) (budget : Nat)
    (simulator : Simulator ρ) (before other : Array Output) :
    (execute echo budget simulator before).simulator =
        (execute echo budget simulator other).simulator ∧
      (execute echo budget simulator before).trap = (execute echo budget simulator other).trap := by
  induction budget generalizing simulator before other with
  | zero => exact ⟨rfl, rfl⟩
  | succ budget ih =>
      simp only [execute]
      split
      · exact ⟨rfl, rfl⟩
      · split
        · exact ih _ _ _
        · exact ⟨rfl, rfl⟩

theorem execute_output [ReferenceModel ρ] (echo : Bool) (budget : Nat) (simulator : Simulator ρ)
    (before : Array Output) :
    (execute echo budget simulator before).output.toList =
      before.toList ++ (execute echo budget simulator #[]).output.toList := by
  induction budget generalizing simulator before with
  | zero => simp [execute]
  | succ budget ih =>
      simp only [execute]
      split
      · simp
      · split
        · rw [ih, ih _ (#[] ++ _)]
          simp
        · simp

def setPhase (simulator : Simulator ρ) (phase : Phase) : Simulator ρ :=
  { simulator with state := simulator.state.setPhase phase }

/-- Whether a run with this budget prints each instruction. -/
def echoes (simulator : Simulator ρ) (budget : UInt64) : Bool :=
  budget < simulator.config.general.echoLimit

/-- The ring is shown after a run that went wrong. -/
def ringReport (simulator : Simulator ρ) : List Output :=
  if simulator.config.trace.instructions &&
      (simulator.state.phase == .aborted || simulator.state.haltValue != 0) then
    [.console simulator.ringDump]
  else []

def verdictReport (simulator : Simulator ρ) : List Output :=
  let verdict := simulator.state.verdict
  let pc := simulator.state.haltPc
  [.log (.verdict verdict pc),
    .console s!"rvsdb: {verdict} at pc = {Numeral.hexPadded 16 pc.toNat}\n",
    .statistics simulator.stats]

/-- Ends a run and reports how it ended. -/
def finish (stretch : Stretch ρ) : Reply (Simulator ρ) Unit :=
  let simulator := stretch.simulator
  let output := stretch.output.toList
  match stretch.trap with
  | some trap =>
      { state := simulator
        result := .error trap
        output := output ++ [.console simulator.hart.dump, .statistics simulator.stats] }
  | none =>
      if simulator.state.isFinished then
        .note simulator (output ++ simulator.ringReport ++ simulator.verdictReport)
      else .note (simulator.setPhase .stopped) output

def endedNotice : String :=
  "Program execution has ended. To restart the program, exit and run again.\n"

/-- Executes at most `budget` instructions.  A finished program does not run again. -/
def run [ReferenceModel ρ] (simulator : Simulator ρ) (budget : UInt64) :
    Reply (Simulator ρ) Unit :=
  if simulator.state.isFinished then .note simulator [.console endedNotice]
  else
    finish (execute (simulator.echoes budget) budget.toNat (simulator.setPhase .running) #[])

theorem run_of_finished [ReferenceModel ρ] {simulator : Simulator ρ}
    (finished : simulator.state.isFinished = true) (budget : UInt64) :
    simulator.run budget = .note simulator [.console endedNotice] := by
  simp [run, finished]

def quit (simulator : Simulator ρ) : Reply (Simulator ρ) Unit :=
  .note (simulator.setPhase .quit) [.statistics simulator.stats]

end Simulator

end HartScope
