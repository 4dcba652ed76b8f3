import HartScope.Isa.Disassembly
import HartScope.Memory.LittleEndian

/-!
The trace line of an executed word: address, bytes with the most significant first, assembly text.
-/

namespace HartScope

def traceLine (pc : UInt64) (word : UInt32) : String :=
  let bytes := String.intercalate " " ((LittleEndian.wordBytes word).reverse.map Numeral.byteHex)
  s!"{Numeral.hexPadded 16 pc.toNat}: {bytes}  {disassemble pc word}"

structure TraceEntry where
  pc : UInt64
  word : UInt32
deriving DecidableEq, Repr

def TraceEntry.line (entry : TraceEntry) : String :=
  traceLine entry.pc entry.word

end HartScope
