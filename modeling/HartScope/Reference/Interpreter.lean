import HartScope.Device.Peripheral
import HartScope.Hart.Step
import HartScope.Reference.Model

/-!
The reference model that is a second hart with RAM of its own and no devices.
-/

namespace HartScope

structure Interpreter where
  hart : Hart
  bus : Bus Peripheral

namespace Interpreter

def new (base size : UInt64) : Interpreter where
  hart := Hart.reset base
  bus := { ram := Memory.new base size }

def copyMemory (model : Interpreter) (address : UInt64) (bytes : List UInt8) :
    Interpreter × Except OutOfBound Unit :=
  match model.bus.ram.load? address bytes with
  | some ram => ({ model with bus := { model.bus with ram := ram } }, .ok ())
  | none => (model, .error ⟨address, .byte, .write⟩)

/-- Executes up to `count` instructions, stops at a fault, and adds what happens to `events`. -/
def advance : (count : Nat) → Interpreter → (events : Array Event) → Interpreter × Array Event
  | 0, model, events => (model, events)
  | count + 1, model, events =>
      let step := model.hart.step model.bus
      let events := events ++ Output.events step.output
      match step.result with
      | .error cause => (⟨step.hart, step.bus⟩, events.push (.referenceStopped cause))
      | .ok _ => advance count ⟨step.hart, step.bus⟩ events

def execute (model : Interpreter) (count : Nat) : Interpreter × List Event :=
  let (model, events) := advance count model #[]
  (model, events.toList)

instance : ReferenceModel Interpreter where
  copyMemory := copyMemory
  setRegisters model context := { model with hart := context.apply model.hart }
  getRegisters model := (.ofHart model.hart, model)
  execute := execute
  raiseInterrupt model cause := { model with hart := model.hart.enterTrap cause }

end Interpreter

end HartScope
