import HartScope.Proofs.Hart.Mirror
import HartScope.Proofs.Hart.Wired
import HartScope.Reference.Interpreter

/-!
The in-process reference.  However it has been used, it has no devices and its register zero is
wired.  The register exchange leaves out some CSRs, and is complete where those agree already.
-/

namespace HartScope

namespace Interpreter

/-- The interpreters that its operations can build.  Nothing else reaches its fields. -/
inductive Reachable : Interpreter → Prop where
  | new (base size : UInt64) : Reachable (.new base size)
  | copyMemory {model : Interpreter} (reached : Reachable model) (address : UInt64)
      (bytes : List UInt8) : Reachable (model.copyMemory address bytes).1
  | setRegisters {model : Interpreter} (reached : Reachable model) (context : RegisterContext) :
      Reachable (ReferenceModel.setRegisters model context)
  | execute {model : Interpreter} (reached : Reachable model) (count : Nat) :
      Reachable (model.execute count).1
  | raiseInterrupt {model : Interpreter} (reached : Reachable model) (cause : UInt64) :
      Reachable (ReferenceModel.raiseInterrupt model cause)

/-- An interpreter has no devices, and its register zero is wired. -/
structure Sound (model : Interpreter) : Prop where
  bare : model.bus.devices = []
  wired : model.hart.registers.Wired

theorem Sound.advance {model : Interpreter} (sound : model.Sound) (count : Nat)
    (events : Array Event) : (Interpreter.advance count model events).1.Sound := by
  induction count generalizing model events with
  | zero => exact sound
  | succ count ih =>
      have bare := Hart.step_bare model.hart sound.bare
      have wired := Hart.step_wired sound.wired model.bus
      simp only [Interpreter.advance]
      split
      · exact ⟨bare, wired⟩
      · exact ih ⟨bare, wired⟩ _

theorem Reachable.sound {model : Interpreter} (reached : model.Reachable) : model.Sound := by
  induction reached with
  | new base size => exact ⟨rfl, Registers.wired_empty⟩
  | copyMemory reached address bytes ih =>
      simp only [Interpreter.copyMemory]
      split
      · exact ⟨ih.bare, ih.wired⟩
      · exact ih
  | setRegisters reached context ih => exact ⟨ih.bare, Registers.wired_restore _⟩
  | execute reached count ih => exact ih.advance count #[]
  | raiseInterrupt reached cause ih => exact ⟨ih.bare, ih.wired⟩

end Interpreter

namespace RegisterContext

theorem mismatches_self (context : RegisterContext) : context.mismatches context = [] := by
  rw [mismatches, List.zip_eq_zipWith, List.zipWith_self]
  simp

/-- The exchange carries the whole hart over when the CSRs that it leaves out agree already. -/
theorem apply_ofHart {hart other : Hart} (wired : hart.registers.Wired)
    (csrs : other.csrs = hart.csrs) : (ofHart hart).apply other = hart := by
  have restored := wired.restore_snapshot
  simp only [apply, ofHart, csrs, restored]

end RegisterContext

end HartScope
