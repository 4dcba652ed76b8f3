import HartScope.Hart.Fault
import HartScope.Loading.Error
import HartScope.Watchpoint.Pool

/-!
Why the simulator cannot do what it was asked to do.
-/

namespace HartScope

inductive SimulatorError where
  | load (cause : LoadError)
  /-- A sum of addresses has overflowed, which ends the program. -/
  | overflow
  /-- The loaded image cannot be copied to the reference. -/
  | referenceMemory (cause : OutOfBound)
  | referenceLibrary (path : String)
  | watchpoint (cause : WatchpointError)
  /-- The guest raised a trap that nothing can service. -/
  | unsupportedTrap (pc selector vector : UInt64)
  | configuration
  /-- A text file cannot be read. -/
  | unreadable (path : String)
  /-- A command line is not valid text. -/
  | undecodableInput
deriving DecidableEq, Repr

def SimulatorError.message : SimulatorError → String
  | load cause => cause.message
  | overflow => "attempt to add with overflow"
  | referenceMemory cause => s!"cannot copy guest memory to the reference: {cause.message}"
  | referenceLibrary path => s!"cannot load reference '{path}'"
  | watchpoint cause => s!"watchpoint: {cause.message}"
  | unsupportedTrap pc selector vector => (Fault.unsupportedTrap pc selector vector).message
  | configuration => "config: not a configuration document"
  | unreadable path => s!"io error: cannot read '{path}'"
  | undecodableInput => "io error: stream did not contain valid UTF-8"

def SimulatorError.ofLoadFailure : LoadFailure → SimulatorError
  | .refused cause => .load cause
  | .overflow => .overflow

end HartScope
