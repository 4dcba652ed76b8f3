/-!
Run statistics: host time inside runs and the number of retired instructions.
-/

namespace HartScope

structure Statistics where
  /-- Host time spent executing guest instructions, in nanoseconds. -/
  hostTime : Nat := 0
  retired : UInt64 := 0
deriving DecidableEq, Repr

namespace Statistics

def wordMax : Nat := UInt64.size - 1

def microseconds (stats : Statistics) : Nat :=
  min (stats.hostTime / 1000) wordMax

/-- Instructions per second, once a whole microsecond has passed. -/
def frequency? (stats : Statistics) : Option Nat :=
  if stats.microseconds = 0 then none
  else some (min (stats.retired.toNat * 1000000 / stats.microseconds) wordMax)

def unmeasured : String :=
  "Finish running in less than 1 us and can not calculate the simulation frequency"

def frequencyLine (stats : Statistics) : String :=
  match stats.frequency? with
  | some frequency => s!"simulation frequency = {frequency} inst/s\n"
  | none => unmeasured ++ "\n"

def report (stats : Statistics) : String :=
  s!"host time spent = {stats.microseconds} us\n" ++
    s!"total guest instructions = {stats.retired.toNat}\n" ++ stats.frequencyLine

def countInstruction (stats : Statistics) : Statistics :=
  { stats with retired := stats.retired + 1 }

end Statistics

end HartScope
