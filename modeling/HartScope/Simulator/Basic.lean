import HartScope.Config
import HartScope.Device.Peripheral
import HartScope.Hart.Step
import HartScope.Loading.Image
import HartScope.Reference.Lockstep
import HartScope.RunState
import HartScope.Simulator.Reply
import HartScope.Symbols
import HartScope.Trace.Calls
import HartScope.Trace.Line
import HartScope.Trace.Ring

/-!
The simulator: a hart on its bus, the run state, and everything that watches the hart.
-/

namespace HartScope

structure Simulator (ρ : Type) where
  hart : Hart
  bus : Bus Peripheral
  state : RunState := {}
  stats : Statistics := {}
  watchpoints : WatchpointPool := .new
  config : Config
  image : Image
  ring : Ring TraceEntry
  tracer : CallTracer := {}
  symbols : Option SymbolTable := none
  reference : Option ρ := none

/-- Names in an expression mean the program counter, a register, a CSR or a function symbol, and an
address means the eight bytes of RAM there. -/
def Hart.scope (hart : Hart) (ram : Memory) (symbols : Option SymbolTable) : Scope where
  register name :=
    if name = "pc" then some hart.pc
    else
      match Reg.ofName? name with
      | some r => some (hart.get r)
      | none => (Csr.ofName? name).map hart.csrs.get
  memory address :=
    match ram.read? address .double with
    | some value => .ok value
    | none => .error (.badAddress address)
  symbol name := symbols.bind (·.address? name)

namespace Simulator

variable {ρ : Type}

/-- A simulator with the built-in program. -/
def new (config : Config) : Except SimulatorError (Simulator ρ) :=
  let loading := Loading.builtin (Memory.new config.memory.base config.memory.size)
  match loading.result with
  | .error failure => .error (.ofLoadFailure failure)
  | .ok image =>
      .ok {
        hart := Hart.reset image.entry
        bus := Bus.withDevices loading.memory Peripheral.defaults
        config := config
        image := image
        ring := Ring.new config.trace.ringCapacity }

def setMemory (simulator : Simulator ρ) (ram : Memory) : Simulator ρ :=
  { simulator with bus := { simulator.bus with ram := ram } }

/-- The simulator about to run `image` from its entry. -/
def install (simulator : Simulator ρ) (image : Image) : Simulator ρ :=
  { simulator with image := image, hart := Hart.reset image.entry }

/-- Loads a program.  A program that cannot be loaded leaves the hart and the recorded image. -/
def load (simulator : Simulator ρ) (reader : Elf.Reader) (bytes : Array UInt8) :
    Reply (Simulator ρ) Unit :=
  let loading := Loading.ofBytes reader simulator.bus.ram bytes
  let simulator := simulator.setMemory loading.memory
  match loading.result with
  | .error failure => .error simulator (.ofLoadFailure failure)
  | .ok image => .note (simulator.install image) []

/-- Loads the program that a file holds, if the file could be read. -/
def loadFile (simulator : Simulator ρ) (reader : Elf.Reader) (path : String)
    (contents : Option (Array UInt8)) : Reply (Simulator ρ) Unit :=
  match contents with
  | none => .error simulator (.load (.unreadable path))
  | some bytes =>
      (simulator.load reader bytes).andThen fun simulator =>
        .note simulator [.log (.imageLoaded path bytes.size simulator.image.entry)]

def setSymbols (simulator : Simulator ρ) (symbols : SymbolTable) : Simulator ρ :=
  { simulator with symbols := some symbols }

/-- Takes the function symbols from an ELF file, if the file could be read. -/
def loadSymbols (simulator : Simulator ρ) (reader : Elf.Reader) (path : String)
    (contents : Option (Array UInt8)) : Reply (Simulator ρ) Unit :=
  match contents with
  | none => .error simulator (.load (.unreadable path))
  | some bytes =>
      match SymbolTable.ofElf reader bytes with
      | .error cause => .error simulator (.load cause)
      | .ok symbols =>
          .note (simulator.setSymbols symbols) [.log (.symbolsLoaded symbols.size path)]

/-- Attaches a reference that holds a copy of the image and of the registers. -/
def attach [ReferenceModel ρ] (simulator : Simulator ρ) (model : ρ) :
    Except SimulatorError (Simulator ρ) :=
  let image := simulator.image
  match Lockstep.prepare model simulator.bus.ram image.start image.size.toNat simulator.hart with
  | (_, .error cause) => .error (.referenceMemory cause)
  | (model, .ok ()) => .ok { simulator with reference := some model }

def scope (simulator : Simulator ρ) : Scope :=
  simulator.hart.scope simulator.bus.ram simulator.symbols

def lastLine? (simulator : Simulator ρ) : Option String :=
  simulator.ring.last?.map TraceEntry.line

def ringDump (simulator : Simulator ρ) : String :=
  simulator.ring.dump TraceEntry.line

def evaluate (simulator : Simulator ρ) (source : String) : Except ExprError UInt64 :=
  HartScope.evaluate simulator.scope source

def readWord (simulator : Simulator ρ) (address : UInt64) : Except OutOfBound UInt32 :=
  match simulator.bus.ram.read? address .word with
  | some value => .ok value.toUInt32
  | none => .error ⟨address, .word, .read⟩

end Simulator

end HartScope
