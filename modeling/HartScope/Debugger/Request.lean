import HartScope.Text.Blank
import HartScope.Text.Numeral

/-!
Requests to the debugger and how a command line states them: a command word, and after a blank its
argument.  Blanks around both are dropped.
-/

namespace HartScope

inductive Command where
  | help
  | resume
  | quit
  | step
  | info
  | examine
  | print
  | watch
  | delete
deriving DecidableEq, Repr

namespace Command

/-- The commands in the order in which they are listed. -/
def all : List Command :=
  [help, resume, quit, step, info, examine, print, watch, delete]

def word : Command → String
  | help => "help"
  | resume => "c"
  | quit => "q"
  | step => "si"
  | info => "info"
  | examine => "x"
  | print => "p"
  | watch => "w"
  | delete => "d"

def description : Command → String
  | help => "Display information about all supported commands"
  | resume => "Continue the execution of the program"
  | quit => "Exit the debugger"
  | step => "Execute the next [N] instructions (default 1)"
  | info => "Display registers (r) or watchpoints (w)"
  | examine => "Display [N] 4-byte words of memory starting at address [EXPR]"
  | print => "Evaluate [EXPR]"
  | watch => "Set a watchpoint that reports every change of [EXPR]"
  | delete => "Delete watchpoint [NO]"

/-- What follows the command word in a correct line. -/
def arguments : Command → String
  | help | resume | quit => ""
  | step => " [N]"
  | info => " r|w"
  | examine => " N EXPR"
  | print | watch => " EXPR"
  | delete => " NO"

def usage (command : Command) : String :=
  s!"Usage: {command.word}{command.arguments}\n"

def helpLine (command : Command) : String :=
  s!"{command.word} - {command.description}\n"

def ofWord? (word : String) : Option Command :=
  all.find? (·.word == word)

theorem mem_all (command : Command) : command ∈ all := by
  cases command <;> decide

theorem ofWord?_word (command : Command) : ofWord? command.word = some command := by
  cases command <;> rfl

end Command

inductive Request where
  /-- An empty line. -/
  | nothing
  | unknown (word : String)
  /-- A command whose argument is missing or malformed. -/
  | misuse (command : Command)
  | listCommands
  | describe (command : Command)
  | run (budget : UInt64)
  | quit
  | registers
  | watchpoints
  | examine (count : UInt64) (expr : String)
  | print (expr : String)
  | watch (expr : String)
  | delete (id : Nat)
deriving DecidableEq, Repr

namespace Request

/-- A budget that no run exhausts. -/
def unlimited : UInt64 := 0xFFFFFFFFFFFFFFFF

def count? (cs : List Char) : Option UInt64 :=
  (Numeral.ofSigned? Numeral.wordLimit cs).map UInt64.ofNat

def help : Option (List Char) → Request
  | none => listCommands
  | some topic =>
      match Command.ofWord? (String.ofList topic) with
      | some command => describe command
      | none => unknown (String.ofList topic)

def step : Option (List Char) → Request
  | none => run 1
  | some argument =>
      match count? argument with
      | some budget => run budget
      | none => misuse .step

def info : Option (List Char) → Request
  | some ['r'] => registers
  | some ['w'] => watchpoints
  | _ => misuse .info

def examineWords (argument : Option (List Char)) : Request :=
  match argument.bind Blank.split? with
  | none => misuse .examine
  | some (count, expr) =>
      match count? count with
      | some count => examine count (String.ofList expr)
      | none => misuse .examine

def withExpression (command : Command) (make : String → Request) :
    Option (List Char) → Request
  | some expr => make (String.ofList expr)
  | none => misuse command

def deleteWatchpoint (argument : Option (List Char)) : Request :=
  match argument.bind (Numeral.ofSigned? Numeral.wordLimit) with
  | some id => delete id
  | none => misuse .delete

def ofCommand (command : Command) (argument : Option (List Char)) : Request :=
  match command with
  | .help => help argument
  | .resume => run unlimited
  | .quit => quit
  | .step => step argument
  | .info => info argument
  | .examine => examineWords argument
  | .print => withExpression .print print argument
  | .watch => withExpression .watch watch argument
  | .delete => deleteWatchpoint argument

/-- The command word of a line without blanks at its ends, and its argument. -/
def split (cs : List Char) : List Char × Option (List Char) :=
  match Blank.split? cs with
  | none => (cs, none)
  | some (word, rest) => (word, some (Blank.trim rest) |>.filter (!·.isEmpty))

def ofLine (line : String) : Request :=
  match Blank.trim line.toList with
  | [] => nothing
  | cs =>
      let (word, argument) := split cs
      match Command.ofWord? (String.ofList word) with
      | some command => ofCommand command argument
      | none => unknown (String.ofList word)

end Request

end HartScope
