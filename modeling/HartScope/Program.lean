import HartScope.CommandLine
import HartScope.Debugger.Session
import HartScope.Elf.Parts
import HartScope.Reference.Interpreter
import HartScope.Text.Utf8

/-!
The program as a whole: options and files become a simulator, the debugger's loop runs on the
input, and the outcome becomes an exit status.
-/

namespace HartScope

namespace Program

/-- Contents of the files that can be read. -/
abbrev Files := String → Option (Array UInt8)

/-- The simulator that the program drives; its references run in the same process. -/
abbrev Machine := Simulator Interpreter

def configurationText (files : Files) (path : String) : Except SimulatorError String :=
  match files path with
  | none => .error (.unreadable path)
  | some bytes =>
      match String.fromUTF8? ⟨bytes⟩ with
      | none => .error .undecodableInput
      | some text => .ok text

def fileConfiguration (files : Files) : Option String → Except SimulatorError Config
  | none => .ok {}
  | some path => do
      let text ← configurationText files path
      match Config.ofJson? text with
      | some config => .ok config
      | none => .error .configuration

/-- Options take precedence over the configuration file. -/
def override (options : Options) (config : Config) : Config where
  general := { config.general with batch := config.general.batch || options.batch }
  memory := config.memory
  trace := config.trace
  reference :=
    { library := options.library.or config.reference.library
      tcpPort := options.tcpPort.getD config.reference.tcpPort }

def configuration (options : Options) (files : Files) : Except SimulatorError Config := do
  let config ← fileConfiguration files options.configFile
  return override options config

def loadImage (options : Options) (files : Files) (machine : Machine) : Reply Machine Unit :=
  match options.image with
  | some path => machine.loadFile .standard path (files path)
  | none => .note machine [.log (.notice "No image is given. Use the built-in image.")]

def loadSymbols (options : Options) (files : Files) (machine : Machine) : Reply Machine Unit :=
  match options.symbolFile with
  | some path => machine.loadSymbols .standard path (files path)
  | none => .note machine [.log (.notice "No ELF file is given. Function tracing is off.")]

/-- A shared library cannot be opened here, so naming one is an error. -/
def openReference (machine : Machine) : Reply Machine Unit :=
  match machine.config.reference.library with
  | some path => .error machine (.referenceLibrary path)
  | none => .note machine [.log (.notice "Differential testing: OFF")]

def greeting : String :=
  "Welcome to rvsdb (riscv64)!\nFor help, type \"help\"\n"

def welcome (machine : Machine) : Reply Machine Unit :=
  .note machine (if machine.config.general.batch then [] else [.console greeting])

/-- Everything between the first simulator and the first command. -/
def prepare (options : Options) (files : Files) (machine : Machine) : Reply Machine Unit :=
  (((loadImage options files machine).andThen (loadSymbols options files)).andThen
    openReference).andThen welcome

def start (options : Options) (files : Files) : Except SimulatorError Machine := do
  let config ← configuration options files
  Simulator.new config

/-- Exit status of a program that an error ends; an overflow has one of its own. -/
def failureStatus : SimulatorError → Nat
  | .overflow => 101
  | _ => 1

def status (reply : Reply Machine Unit) : Nat :=
  match reply.result with
  | .ok () => if reply.state.state.isGoodExit then 0 else 1
  | .error cause => failureStatus cause

structure Exit where
  status : Nat
  output : List Output

/-- Standard output as text. -/
def Exit.text (exit : Exit) : String :=
  Utf8.decode (exit.output.flatMap Output.bytes)

/-- The whole program on an input.  What serial ports hold back is delivered at the end. -/
def run (options : Options) (files : Files) (input : List UInt8) : Exit :=
  match start options files with
  | .error cause => ⟨failureStatus cause, []⟩
  | .ok machine =>
      let reply := (prepare options files machine).andThen (Debugger.loop · input)
      ⟨status reply, reply.output ++ [.serial reply.state.bus.close]⟩

end Program

end HartScope
