import HartScope.Hart.Fault
import HartScope.Reference.Mismatch
import HartScope.Statistics

/-!
What leaves the simulator, in the order in which it happens: text for the console, bytes from
serial ports, statistics reports, and log events.
-/

namespace HartScope

inductive Level where
  | error
  | warn
  | info
  | debug
  | trace
deriving DecidableEq, Repr

namespace Level

def text : Level → String
  | error => "ERROR"
  | warn => "WARN"
  | info => "INFO"
  | debug => "DEBUG"
  | trace => "TRACE"

/-- Verbosity: a log that shows one level shows every level of lower rank. -/
def rank : Level → Nat
  | error => 0
  | warn => 1
  | info => 2
  | debug => 3
  | trace => 4

end Level

inductive Event where
  | fault (fault : Fault)
  | mismatch (mismatch : Mismatch) (pc : UInt64)
  | referenceStopped (fault : Fault)
  | verdict (outcome : String) (pc : UInt64)
  | transfer (line : String)
  | imageLoaded (path : String) (size : Nat) (entry : UInt64)
  | symbolsLoaded (count : Nat) (path : String)
  | notice (text : String)
  | environmentCall (pc selector : UInt64)
  | interrupt (cause : UInt64)
  | deviceRead (address value : UInt64) (device : String)
  | deviceWrite (address value : UInt64) (device : String)
deriving DecidableEq, Repr

namespace Event

def level : Event → Level
  | fault _ => .error
  | mismatch .. | referenceStopped _ => .warn
  | verdict .. | transfer _ | imageLoaded .. | symbolsLoaded .. | notice _ => .info
  | environmentCall .. | interrupt _ => .debug
  | deviceRead .. | deviceWrite .. => .trace

def message : Event → String
  | fault cause => cause.message
  | mismatch found pc => s!"{found.text} pc={Numeral.hex pc.toNat}"
  | referenceStopped cause => s!"reference stopped: {cause.message}"
  | verdict outcome pc => s!"{outcome} at pc = {Numeral.hexPadded 16 pc.toNat}"
  | transfer line => s!"ftrace: {line}"
  | imageLoaded path size entry =>
      s!"the image is {path}, size = {size}, entry = {Numeral.hex entry.toNat}"
  | symbolsLoaded count path => s!"loaded {count} function symbols from {path}"
  | notice text => text
  | environmentCall pc selector =>
      s!"ecall pc={Numeral.hex pc.toNat} a7={selector.toInt64.toInt}"
  | interrupt cause => s!"taking interrupt cause={Numeral.hex cause.toNat}"
  | deviceRead address value device =>
      s!"mtrace: read {Numeral.hex address.toNat} -> {Numeral.hex value.toNat} device={device}"
  | deviceWrite address value device =>
      s!"mtrace: write {Numeral.hex address.toNat} <- {Numeral.hex value.toNat} device={device}"

def line (event : Event) : String :=
  s!"{event.level.text} {event.message}"

end Event

inductive Output where
  | console (text : String)
  | serial (bytes : List UInt8)
  | statistics (stats : Statistics)
  | log (event : Event)
deriving DecidableEq, Repr

namespace Output

/-- What a command writes by itself. -/
def text : Output → String
  | console text => text
  | statistics stats => stats.report
  | serial _ | log _ => ""

/-- What reaches standard output. -/
def bytes : Output → List UInt8
  | serial bytes => bytes
  | output => output.text.toUTF8.toList

def serialBytes (output : List Output) : List UInt8 :=
  output.flatMap fun
    | serial bytes => bytes
    | console _ | statistics _ | log _ => []

def events (output : List Output) : List Event :=
  output.filterMap fun
    | log event => some event
    | console _ | serial _ | statistics _ => none

end Output

end HartScope
