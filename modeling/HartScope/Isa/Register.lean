import HartScope.Text.Numeral

/-!
Integer registers and their calling-convention names. A register may be written by its name, as
`fp`, as `0`, or as `x` and its number.
-/

namespace HartScope

abbrev Reg := Fin 32

namespace Reg

def zero : Reg := 0
def ra : Reg := 1
def a0 : Reg := 10
def a7 : Reg := 17

def names : List String :=
  ["zero", "ra", "sp", "gp", "tp", "t0", "t1", "t2", "s0", "s1", "a0", "a1", "a2", "a3", "a4",
   "a5", "a6", "a7", "s2", "s3", "s4", "s5", "s6", "s7", "s8", "s9", "s10", "s11", "t3", "t4",
   "t5", "t6"]

/-- The name of a register number; a number that designates no register has a name of its own. -/
def nameAt (index : Nat) : String :=
  names.getD index "x??"

def name (r : Reg) : String :=
  nameAt r.val

def ofNat? (n : Nat) : Option Reg :=
  if below : n < 32 then some ⟨n, below⟩ else none

/-- The number behind `x`: a numeral below 32 that has no leading zero. -/
def ofNumeral? (cs : List Char) : Option Reg :=
  if 1 < cs.length ∧ cs.head? = some '0' then none
  else (Numeral.ofSigned? Numeral.wordLimit cs).bind ofNat?

def ofName? (text : String) : Option Reg :=
  match names.idxOf? text with
  | some index => ofNat? index
  | none =>
      if text = "0" then some zero
      else if text = "fp" then some 8
      else match text.toList with
        | 'x' :: numeral => ofNumeral? numeral
        | _ => none

end Reg

end HartScope
