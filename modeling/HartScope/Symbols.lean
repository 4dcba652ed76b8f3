import HartScope.Access
import HartScope.Elf.Reader
import HartScope.Loading.Error

/-!
Function symbols, sorted by start address.  Symbols with the same start keep the order in which
they were given.  Behind them stands the symbol that is the answer for every other address.
-/

namespace HartScope

/-- A function that occupies the addresses from `start` up to `stop`. -/
structure Symbol where
  name : String
  start : UInt64
  stop : UInt64
deriving DecidableEq, Repr

namespace Symbol

def contains (symbol : Symbol) (address : UInt64) : Bool :=
  symbol.start ≤ address && address < symbol.stop

/-- Stands for every address outside the known functions. -/
def unknown : Symbol :=
  ⟨"???", 0, 0⟩

def startsBefore (a b : Symbol) : Bool :=
  a.start ≤ b.start

end Symbol

structure SymbolTable where
  /-- The functions in order, and the unknown one behind them. -/
  entries : List Symbol
  nonempty : entries ≠ []
deriving DecidableEq, Repr

namespace SymbolTable

def ofList (symbols : List Symbol) : SymbolTable :=
  ⟨symbols.mergeSort Symbol.startsBefore ++ [.unknown], List.append_ne_nil_of_right_ne_nil _ nofun⟩

/-- How many functions there are. -/
def size (table : SymbolTable) : Nat :=
  table.entries.length - 1

/-- The functions alone. -/
def symbols (table : SymbolTable) : List Symbol :=
  table.entries.take table.size

/-- The first function that contains an address, or the unknown one. -/
def lookup (table : SymbolTable) (address : UInt64) : Symbol :=
  (table.symbols.find? (·.contains address)).getD (table.entries.getLast table.nonempty)

def isFunctionStart (table : SymbolTable) (address : UInt64) : Bool :=
  table.symbols.any (·.start == address)

def address? (table : SymbolTable) (name : String) : Option UInt64 :=
  (table.symbols.find? (·.name == name)).map Symbol.start

def isFunction (entry : Elf.SymbolEntry) : Bool :=
  entry.isCode && entry.size != 0

def namedFunctions (file : Elf.SymbolFile) : List (String × Elf.SymbolEntry) :=
  (file.symbols.filter isFunction).filterMap fun entry =>
    entry.name?.map fun name => (name, entry)

def symbolOf (name : String) (entry : Elf.SymbolEntry) : Except LoadError Symbol :=
  match exactSum? entry.address entry.size with
  | some stop => .ok ⟨name, entry.address, stop⟩
  | none => .error (.unsupported .symbolOverflow)

/-- Function symbols of an executable ELF file. -/
def ofElf (reader : Elf.Reader) (bytes : Array UInt8) : Except LoadError SymbolTable :=
  match reader.symbolFile? bytes with
  | none => .error .malformed
  | some file =>
      if file.executable then do
        let symbols ← (namedFunctions file).mapM fun (name, entry) => symbolOf name entry
        return ofList symbols
      else .error (.unsupported .notExecutable)

end SymbolTable

end HartScope
