import HartScope.Text.Numeral

/-!
The command line.  Options have a short and a long name; short ones that take no value may be
joined, and a value follows its option as the next argument, behind an equals sign, or directly
behind a short name.  No option may be given twice.  At most one image is named, and everything
behind a double hyphen is an image.
-/

namespace HartScope

structure Options where
  batch : Bool := false
  logFile : Option String := none
  library : Option String := none
  tcpPort : Option Nat := none
  symbolFile : Option String := none
  configFile : Option String := none
  image : Option String := none
deriving DecidableEq, Repr

/-- Why no program is run. -/
inductive Refusal where
  | help
  | version
  | misuse (argument : String)
deriving DecidableEq, Repr

inductive Switch where
  | batch
  | log
  | diff
  | tcpPort
  | elf
  | config
  | help
  | version
deriving DecidableEq, Repr

namespace Switch

def all : List Switch :=
  [batch, log, diff, tcpPort, elf, config, help, version]

def letter : Switch → Char
  | batch => 'b'
  | log => 'l'
  | diff => 'd'
  | tcpPort => 'p'
  | elf => 'e'
  | config => 'c'
  | help => 'h'
  | version => 'V'

def word : Switch → String
  | batch => "batch"
  | log => "log"
  | diff => "diff"
  | tcpPort => "port"
  | elf => "elf"
  | config => "config"
  | help => "help"
  | version => "version"

def takesValue : Switch → Bool
  | log | diff | tcpPort | elf | config => true
  | batch | help | version => false

def ofLetter? (c : Char) : Option Switch :=
  all.find? (·.letter == c)

def ofWord? (word : String) : Option Switch :=
  all.find? (·.word == word)

theorem ofLetter?_letter (switch : Switch) : ofLetter? switch.letter = some switch := by
  cases switch <;> rfl

theorem ofWord?_word (switch : Switch) : ofWord? switch.word = some switch := by
  cases switch <;> rfl

end Switch

namespace Options

/-- A TCP port number in decimal; the sign may be given. -/
def tcpPort? (text : String) : Option Nat :=
  match text.toList with
  | '-' :: digits => Numeral.ofDecimal? 1 digits
  | cs => Numeral.ofSigned? UInt16.size cs

/-- A path that has not been given before, and is not empty. -/
def path? (given : Option String) (text : String) : Option (Option String) :=
  if given.isSome || text.isEmpty then none else some (some text)

/-- The options with a value added for an option that takes one. -/
def withValue? (options : Options) (switch : Switch) (text : String) : Option Options :=
  match switch with
  | .log => (path? options.logFile text).map fun path => { options with logFile := path }
  | .diff => (path? options.library text).map fun path => { options with library := path }
  | .elf => (path? options.symbolFile text).map fun path => { options with symbolFile := path }
  | .config => (path? options.configFile text).map fun path => { options with configFile := path }
  | .tcpPort =>
      if options.tcpPort.isSome then none
      else (tcpPort? text).map fun tcpPort => { options with tcpPort := some tcpPort }
  | .batch | .help | .version => none

def withImage? (options : Options) (text : String) : Option Options :=
  (path? options.image text).map fun path => { options with image := path }

/-- An option without a value. -/
def withSwitch (options : Options) (argument : String) : Switch → Except Refusal Options
  | .help => .error .help
  | .version => .error .version
  | .batch =>
      if options.batch then .error (.misuse argument) else .ok { options with batch := true }
  | _ => .error (.misuse argument)

def accept (argument : String) : Option Options → Except Refusal Options
  | some options => .ok options
  | none => .error (.misuse argument)

/-- Whether an argument names options rather than a value; a single hyphen is a value. -/
def isSwitch (argument : String) : Bool :=
  argument.startsWith "-" && argument != "-"

/-- Takes the next argument as the value of an option. -/
def takeValue (options : Options) (argument : String) (switch : Switch) :
    List String → Except Refusal (Options × List String)
  | value :: rest =>
      if isSwitch value then .error (.misuse argument)
      else (accept value (options.withValue? switch value)).map (·, rest)
  | [] => .error (.misuse argument)

/-- A value directly behind a short name, with or without an equals sign between them. -/
def attached : List Char → String
  | '=' :: value => String.ofList value
  | value => String.ofList value

/-- Takes joined short options, and the value of the last one. -/
def takeLetters (options : Options) (argument : String) :
    List Char → List String → Except Refusal (Options × List String)
  | [], rest => .ok (options, rest)
  | c :: cs, rest =>
      match Switch.ofLetter? c with
      | none => .error (.misuse argument)
      | some switch =>
          if switch.takesValue then
            match cs with
            | [] => takeValue options argument switch rest
            | value => (accept argument (options.withValue? switch (attached value))).map (·, rest)
          else do
            let options ← options.withSwitch argument switch
            takeLetters options argument cs rest

/-- Takes a long option, given without its hyphens. -/
def takeWord (options : Options) (argument : String) (cs : List Char) (rest : List String) :
    Except Refusal (Options × List String) :=
  let word := cs.takeWhile (· != '=')
  match Switch.ofWord? (String.ofList word), cs.drop word.length with
  | none, _ => .error (.misuse argument)
  | some switch, [] =>
      if switch.takesValue then takeValue options argument switch rest
      else (options.withSwitch argument switch).map (·, rest)
  | some switch, _ :: value =>
      (accept argument (options.withValue? switch (String.ofList value))).map (·, rest)

/-- Takes one argument, and the value that belongs to it. -/
def takeArgument (options : Options) (argument : String) (rest : List String) :
    Except Refusal (Options × List String) :=
  match argument.toList with
  | '-' :: '-' :: cs => takeWord options argument cs rest
  | '-' :: c :: cs => takeLetters options argument (c :: cs) rest
  | _ => (accept argument (options.withImage? argument)).map (·, rest)

/-- Takes arguments that can only be images. -/
def takeImages (options : Options) : List String → Except Refusal Options
  | [] => .ok options
  | argument :: rest => do
      let options ← accept argument (options.withImage? argument)
      takeImages options rest

/-- Takes all arguments.  Each one takes at least itself, so `fuel` need not exceed their number. -/
def takeAll : (fuel : Nat) → Options → List String → Except Refusal Options
  | _, options, [] => .ok options
  | 0, _, argument :: _ => .error (.misuse argument)
  | fuel + 1, options, argument :: rest =>
      if argument = "--" then takeImages options rest
      else do
        let (options, rest) ← takeArgument options argument rest
        takeAll fuel options rest

def ofArguments (arguments : List String) : Except Refusal Options :=
  takeAll arguments.length {} arguments

end Options

end HartScope
