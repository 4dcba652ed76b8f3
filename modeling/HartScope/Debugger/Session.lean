import HartScope.Debugger.Request
import HartScope.Simulator.Run

/-!
The debugger answers requests to a simulator, and its loop reads one request a line until the user
leaves or the input ends.
-/

namespace HartScope

/-- What the loop does after a request. -/
inductive Flow where
  | stay
  | leave
deriving DecidableEq, Repr

namespace Debugger

variable {ρ : Type}

def prompt : String := "(sdb) "

/-- The answer to a request that changes nothing. -/
def say (simulator : Simulator ρ) (text : String) : Reply (Simulator ρ) Flow :=
  { state := simulator, result := .ok .stay, output := [.console text] }

def valueLine (value : UInt64) : String :=
  s!"{value.toNat} ({Numeral.hex value.toNat})\n"

/-- Answers with the value of an expression, or with what is wrong with it. -/
def withValue (simulator : Simulator ρ) (command : Command) (expr : String)
    (use : UInt64 → Reply (Simulator ρ) Flow) : Reply (Simulator ρ) Flow :=
  match simulator.evaluate expr with
  | .ok value => use value
  | .error error => say simulator (s!"EXPR error: {error.message}\n" ++ command.usage)

/-- Adds a line for each of `count` words from `address` on; one that cannot be read is the last. -/
def wordLines (simulator : Simulator ρ) :
    (count : Nat) → (address : UInt64) → (lines : Array String) → Array String
  | 0, _, lines => lines
  | count + 1, address, lines =>
      match simulator.readWord address with
      | .error fault => lines.push (fault.message ++ "\n")
      | .ok word =>
          let line := s!"{Numeral.hexPadded 8 address.toNat}: {Numeral.hexPadded 8 word.toNat}\n"
          wordLines simulator count (address + 4) (lines.push line)

def watchpointLine (number expr : String) : String :=
  Numeral.padRight 8 number ++ Numeral.padRight 8 expr ++ "\n"

def watchpointTable (pool : WatchpointPool) : String :=
  if pool.isEmpty then "No watchpoints!\n"
  else
    watchpointLine "No" "EXPR" ++
      String.join (pool.watchpoints.map fun slot => watchpointLine (toString slot.id) slot.expr)

/-- Watches an expression whose value is `value`.  That no slot is free ends the session. -/
def watch (simulator : Simulator ρ) (expr : String) (value : UInt64) :
    Reply (Simulator ρ) Flow :=
  match simulator.watchpoints.create expr value with
  | .error error => .error simulator (.watchpoint error)
  | .ok (id, pool) =>
      say { simulator with watchpoints := pool } s!"Watchpoint {id}: {expr}\n"

def delete (simulator : Simulator ρ) (id : Nat) : Reply (Simulator ρ) Flow :=
  match simulator.watchpoints.release id with
  | .error error => say simulator (error.message ++ "\n")
  | .ok (expr, pool) =>
      say { simulator with watchpoints := pool } s!"Delete watchpoint {id}: {expr}\n"

def perform [ReferenceModel ρ] (simulator : Simulator ρ) : Request → Reply (Simulator ρ) Flow
  | .nothing => { state := simulator, result := .ok .stay }
  | .unknown word => say simulator s!"Unknown command '{word}'\n"
  | .misuse command => say simulator command.usage
  | .listCommands => say simulator (String.join (Command.all.map Command.helpLine))
  | .describe command => say simulator command.helpLine
  | .run budget => (simulator.run budget).map fun _ => .stay
  | .quit => simulator.quit.map fun _ => .leave
  | .registers => say simulator simulator.hart.dump
  | .watchpoints => say simulator (watchpointTable simulator.watchpoints)
  | .examine count expr =>
      withValue simulator .examine expr fun address =>
        say simulator (String.join (wordLines simulator count.toNat address #[]).toList)
  | .print expr => withValue simulator .print expr fun value => say simulator (valueLine value)
  | .watch expr => withValue simulator .watch expr (watch simulator expr)
  | .delete id => delete simulator id

def execute [ReferenceModel ρ] (simulator : Simulator ρ) (line : String) :
    Reply (Simulator ρ) Flow :=
  perform simulator (.ofLine line)

def newline : UInt8 := 10

/-- The lines of an input, each with the newline that ends it. -/
def inputLines : List UInt8 → List (List UInt8)
  | [] => []
  | byte :: rest =>
      if byte = newline then [byte] :: inputLines rest
      else
        match inputLines rest with
        | [] => [[byte]]
        | line :: lines => (byte :: line) :: lines

def text? (line : List UInt8) : Option String :=
  String.fromUTF8? ⟨line.toArray⟩

/-- Answers one line after another and adds what leaves the simulator to `output`. -/
def answerLines [ReferenceModel ρ] (simulator : Simulator ρ) (output : Array Output) :
    List (List UInt8) → Reply (Simulator ρ) Unit
  | [] => .note simulator (output.push (.console prompt)).toList
  | line :: rest =>
      let output := output.push (.console prompt)
      match text? line with
      | none => { state := simulator, result := .error .undecodableInput, output := output.toList }
      | some text =>
          let reply := execute simulator text
          let output := output ++ reply.output
          match reply.result with
          | .error error => { state := reply.state, result := .error error, output := output.toList }
          | .ok .leave => .note reply.state output.toList
          | .ok .stay => answerLines reply.state output rest

/-- The command loop on an input.  In batch mode the program runs once and no line is read. -/
def loop [ReferenceModel ρ] (simulator : Simulator ρ) (input : List UInt8) :
    Reply (Simulator ρ) Unit :=
  if simulator.config.general.batch then simulator.run Request.unlimited
  else answerLines simulator #[] (inputLines input)

end Debugger

end HartScope
