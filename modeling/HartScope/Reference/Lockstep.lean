import HartScope.Memory.Basic
import HartScope.Reference.Model

/-!
Lock-step comparison of the hart with a reference model.  After an instruction that touched no
device the reference executes one too and both are compared; after one that did, the reference takes
over the hart's registers instead.
-/

namespace HartScope.Lockstep

variable {ρ : Type} [ReferenceModel ρ]

/-- Copies a range of RAM and the hart's registers into the reference. -/
def prepare (model : ρ) (ram : Memory) (start : UInt64) (size : Nat) (hart : Hart) :
    ρ × Except OutOfBound Unit :=
  match ram.slice? start size with
  | none => (model, .error ⟨start, .byte, .read⟩)
  | some bytes =>
      match ReferenceModel.copyMemory model start bytes with
      | (model, .error fault) => (model, .error fault)
      | (model, .ok ()) => (ReferenceModel.setRegisters model (.ofHart hart), .ok ())

structure Check (ρ : Type) where
  model : ρ
  mismatches : List Mismatch
  events : List Event

def check (model : ρ) (hart : Hart) (pc : UInt64) (skip : Bool) : Check ρ :=
  let actual := RegisterContext.ofHart hart
  if skip then ⟨ReferenceModel.setRegisters model actual, [], []⟩
  else
    let (model, events) := ReferenceModel.execute model 1
    let (reference, model) := ReferenceModel.getRegisters model
    let mismatches := reference.mismatches actual
    ⟨model, mismatches, events ++ mismatches.map (.mismatch · pc)⟩

end HartScope.Lockstep
