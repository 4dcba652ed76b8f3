import HartScope.Isa.Register

/-!
The register file. Indices are taken modulo 32, and index zero is the register that reads as zero
and ignores writes.
-/

namespace HartScope

structure Registers where
  cells : Vector UInt64 32 := Vector.replicate 32 0
deriving DecidableEq, Repr

namespace Registers

def cellOf (index : Nat) : Reg :=
  ⟨index % 32, Nat.mod_lt _ (by decide)⟩

def read (registers : Registers) (index : Nat) : UInt64 :=
  if index = 0 then 0 else registers.cells[(cellOf index).val]

def write (registers : Registers) (index : Nat) (value : UInt64) : Registers :=
  if index = 0 then registers else ⟨registers.cells.set (cellOf index).val value⟩

def get (registers : Registers) (r : Reg) : UInt64 :=
  registers.read r.val

def set (registers : Registers) (r : Reg) (value : UInt64) : Registers :=
  registers.write r.val value

/-- The contents as they are stored, register zero included. -/
def snapshot (registers : Registers) : Vector UInt64 32 :=
  registers.cells

/-- Takes over `values`, with register zero cleared. -/
def restore (values : Vector UInt64 32) : Registers :=
  ⟨values.set 0 0⟩

def line (name : String) (value : UInt64) : String :=
  Numeral.padRight 6 name ++ Numeral.padRight 20 (Numeral.hex value.toNat) ++
    toString value.toNat ++ "\n"

/-- One line for each register, in order of its number. -/
def dump (registers : Registers) : String :=
  String.join ((List.finRange 32).map fun r => line r.name (registers.get r))

theorem cellOf_val (r : Reg) : cellOf r.val = r :=
  Fin.ext (Nat.mod_eq_of_lt r.isLt)

theorem get_set_same (registers : Registers) {r : Reg} (nonzero : r ≠ Reg.zero) (value : UInt64) :
    (registers.set r value).get r = value := by
  have positive : r.val ≠ 0 := fun same => nonzero (Fin.ext same)
  simp [get, set, read, write, positive]

theorem get_set_ne (registers : Registers) {r other : Reg} (distinct : other ≠ r)
    (value : UInt64) : (registers.set r value).get other = registers.get other := by
  have apart : r.val ≠ other.val := fun same => distinct (Fin.ext same.symm)
  by_cases target : r.val = 0
  · simp [get, set, write, target]
  · by_cases source : other.val = 0
    · simp [get, read, source]
    · simp only [get, set, read, write, target, source, cellOf_val, if_false]
      exact Vector.getElem_set_ne _ _ apart

end Registers

end HartScope
