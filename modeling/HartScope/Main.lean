import HartScope.Program

/-!
The program on a terminal: arguments, files, the clock and the streams.  Long runs are executed in
slices, so that what the guest prints appears while it runs.
-/

namespace HartScope

structure Terminal where
  input : IO.FS.Stream
  output : IO.FS.Stream
  log : IO.FS.Stream
  /-- When the program was started, in nanoseconds. -/
  boot : Nat
  /-- Time spent inside runs, in nanoseconds. -/
  hostTime : IO.Ref Nat

namespace Terminal

open Program

def usage : String :=
  "Usage: rvsdb [OPTIONS] [IMAGE]\n\n" ++
    "  -b, --batch            run the program to its end without a command loop\n" ++
    "  -l, --log <FILE>       write log output to FILE\n" ++
    "  -d, --diff <REF_SO>    shared library of the reference model\n" ++
    "  -p, --port <PORT>      port handed to the reference model\n" ++
    "  -e, --elf <FILE>       ELF file to read function symbols from\n" ++
    "  -c, --config <FILE>    JSON configuration file\n" ++
    "  -h, --help             print this text\n" ++
    "  -V, --version          print the version\n"

def emit (terminal : Terminal) : Output → IO Unit
  | .statistics stats => do
      let hostTime ← terminal.hostTime.get
      terminal.output.putStr { stats with hostTime := hostTime }.report
  | .log event =>
      if event.level.rank ≤ Level.info.rank then terminal.log.putStrLn event.line else pure ()
  | output => terminal.output.write ⟨output.bytes.toArray⟩

def emitAll (terminal : Terminal) (output : List Output) : IO Unit := do
  output.forM (emit terminal)
  terminal.output.flush

def setClock (machine : Machine) (now : Nat) : Machine :=
  let clock := Clock.startingAt (UInt64.ofNat now)
  let devices := machine.bus.devices.map (Peripheral.setClock clock)
  { machine with bus := { machine.bus with devices := devices } }

def sliceLength : Nat := 100000

/-- Executes the cycles of a run slice by slice. -/
partial def runSlices (terminal : Terminal) (echo : Bool) (budget : Nat) (machine : Machine) :
    IO (Reply Machine Unit) := do
  let started ← IO.monoNanosNow
  let slice := min budget sliceLength
  let stretch :=
    Simulator.execute echo slice (setClock machine ((started - terminal.boot) / 1000)) #[]
  emitAll terminal stretch.output.toList
  let finished ← IO.monoNanosNow
  terminal.hostTime.modify (· + (finished - started))
  let rest := { stretch with output := #[] }
  if stretch.trap.isSome || stretch.simulator.state.phase != .running || budget ≤ slice then
    return Simulator.finish rest
  else runSlices terminal echo (budget - slice) stretch.simulator

def run (terminal : Terminal) (machine : Machine) (budget : UInt64) :
    IO (Reply Machine Unit) := do
  if machine.state.isFinished then return machine.run budget
  else
    runSlices terminal (machine.echoes budget) budget.toNat (machine.setPhase .running)

/-- Delivers the output of a reply. -/
def deliver {α : Type} (terminal : Terminal) (reply : Reply Machine α) :
    IO (Reply Machine α) := do
  emitAll terminal reply.output
  return { reply with output := [] }

partial def readLine (terminal : Terminal) (sofar : ByteArray) : IO ByteArray := do
  let bytes ← terminal.input.read 1
  let line := sofar ++ bytes
  if bytes.isEmpty || bytes.toList == [Debugger.newline] then return line
  else readLine terminal line

def perform (terminal : Terminal) (machine : Machine) :
    Request → IO (Reply Machine Flow)
  | .run budget => return (← run terminal machine budget).map fun _ => .stay
  | request => return Debugger.perform machine request

partial def loop (terminal : Terminal) (machine : Machine) : IO (Reply Machine Unit) := do
  emitAll terminal [.console Debugger.prompt]
  let line ← readLine terminal .empty
  if line.isEmpty then return .note machine []
  match Debugger.text? line.toList with
  | none => return .error machine .undecodableInput
  | some text =>
      let reply ← deliver terminal (← perform terminal machine (.ofLine text))
      match reply.result with
      | .error error => return .error reply.state error
      | .ok .leave => return .note reply.state []
      | .ok .stay => loop terminal reply.state

def session (terminal : Terminal) (machine : Machine) : IO (Reply Machine Unit) := do
  if machine.config.general.batch then run terminal machine Request.unlimited
  else loop terminal machine

def readFile? (path : String) : IO (Option (Array UInt8)) := do
  match ← (IO.FS.readBinFile path).toBaseIO with
  | .ok bytes => return some bytes.data
  | .error _ => return none

/-- Reads the files that the options name. -/
def readFiles (options : Options) : IO Files := do
  let paths := [options.configFile, options.image, options.symbolFile].filterMap id
  let contents ← paths.mapM fun path => return (path, ← readFile? path)
  return fun path => (contents.lookup path).join

def report (terminal : Terminal) (error : SimulatorError) : IO Unit := do
  terminal.log.putStrLn s!"{Level.error.text} {error.message}"
  (← IO.getStderr).putStrLn s!"rvsdb: {error.message}"

def finish (terminal : Terminal) (reply : Reply Machine Unit) : IO UInt32 := do
  let reply ← deliver terminal reply
  match reply.result with
  | .error error => report terminal error
  | .ok () => pure ()
  emitAll terminal [.serial reply.state.bus.close]
  return UInt32.ofNat (status reply)

def launch (terminal : Terminal) (options : Options) : IO UInt32 := do
  let files ← readFiles options
  match Program.start options files with
  | .error error =>
      report terminal error
      return UInt32.ofNat (failureStatus error)
  | .ok machine =>
      let prepared ← deliver terminal (prepare options files machine)
      match prepared.result with
      | .error _ => finish terminal prepared
      | .ok () => finish terminal (← session terminal prepared.state)

def openLog : Option String → IO IO.FS.Stream
  | none => IO.getStderr
  | some path => return IO.FS.Stream.ofHandle (← IO.FS.Handle.mk path .write)

def open? (options : Options) : IO (Option Terminal) := do
  match ← (openLog options.logFile).toBaseIO with
  | .error error =>
      (← IO.getStderr).putStrLn s!"cannot open log file: {error}"
      return none
  | .ok log =>
      return some {
        input := ← IO.getStdin
        output := ← IO.getStdout
        log := log
        boot := ← IO.monoNanosNow
        hostTime := ← IO.mkRef 0 }

def refuse : Refusal → IO Unit
  | .help => do (← IO.getStdout).putStr usage
  | .version => do (← IO.getStdout).putStrLn "rvsdb 0.3.0"
  | .misuse argument => do
      (← IO.getStderr).putStr (s!"error: cannot use '{argument}'\n\n" ++ usage)

/-- Runs the program that the arguments ask for and gives its exit status. -/
def start (arguments : List String) : IO UInt32 := do
  match Options.ofArguments arguments with
  | .error refusal =>
      refuse refusal
      return 0
  | .ok options =>
      match ← open? options with
      | none => return 1
      | some terminal => launch terminal options

end Terminal

end HartScope

def main (arguments : List String) : IO UInt32 :=
  HartScope.Terminal.start arguments
