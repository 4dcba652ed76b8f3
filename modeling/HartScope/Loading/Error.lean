import HartScope.Text.Numeral

/-!
Why an image or a symbol file cannot be loaded.
-/

namespace HartScope

inductive ElfDefect where
  | notLittleEndian
  | notExecutable
  | wrongMachine
  | segmentOutsideFile
  | noSegments
  | symbolOverflow
deriving DecidableEq, Repr

def ElfDefect.text : ElfDefect → String
  | notLittleEndian => "not little-endian"
  | notExecutable => "not an executable"
  | wrongMachine => "not a RISC-V file"
  | segmentOutsideFile => "segment lies outside the file"
  | noSegments => "no loadable segments"
  | symbolOverflow => "symbol range overflows"

inductive LoadError where
  | unreadable (path : String)
  | malformed
  | unsupported (defect : ElfDefect)
  | outOfMemory (start stop : UInt64)
deriving DecidableEq, Repr

def LoadError.message : LoadError → String
  | unreadable path => s!"cannot read '{path}'"
  | malformed => "malformed ELF"
  | unsupported defect => s!"unsupported ELF: {defect.text}"
  | outOfMemory start stop =>
      s!"image range [{Numeral.hex start.toNat}, {Numeral.hex stop.toNat}) lies outside " ++
        "guest memory"

/-- What becomes of loading without an image: a refusal, or a sum of addresses that overflows.  An
overflow ends the program. -/
inductive LoadFailure where
  | refused (cause : LoadError)
  | overflow
deriving DecidableEq, Repr

end HartScope
