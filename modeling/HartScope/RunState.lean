/-!
The run state of the loaded program, with where and how it stopped.
-/

namespace HartScope

inductive Phase where
  | running
  /-- Waiting for the next command. -/
  | stopped
  /-- The guest halted itself. -/
  | ended
  /-- A fault or a divergence cut the run short. -/
  | aborted
  | quit
deriving DecidableEq, Repr

def Phase.text : Phase → String
  | running => "running"
  | stopped => "stopped"
  | ended => "ended"
  | aborted => "aborted"
  | quit => "quit"

structure RunState where
  phase : Phase := .stopped
  /-- Address of the instruction that ended or aborted the run. -/
  haltPc : UInt64 := 0
  /-- The exit value, all ones after an abort. -/
  haltValue : UInt64 := 0
deriving DecidableEq, Repr

namespace RunState

def abortValue : UInt64 := 0xFFFFFFFFFFFFFFFF

def setPhase (state : RunState) (phase : Phase) : RunState :=
  { state with phase := phase }

def ended (pc value : UInt64) : RunState :=
  ⟨.ended, pc, value⟩

def aborted (pc value : UInt64) : RunState :=
  ⟨.aborted, pc, value⟩

/-- The program can no longer be resumed. -/
def isFinished (state : RunState) : Bool :=
  state.phase == .ended || state.phase == .aborted

/-- A halt with value zero, or a user who left. -/
def isGoodExit (state : RunState) : Bool :=
  match state.phase with
  | .ended => state.haltValue == 0
  | .quit => true
  | .running | .stopped | .aborted => false

/-- How a finished program is reported. -/
def verdict (state : RunState) : String :=
  if state.phase = .aborted then "ABORT"
  else if state.haltValue = 0 then "HIT GOOD TRAP"
  else "HIT BAD TRAP"

end RunState

end HartScope
