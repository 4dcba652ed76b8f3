import HartScope.Proofs.Hart.Frame
import HartScope.Reference.Context

/-!
The states that a hart can come into.  What holds after a reset and is kept by steps, by trap entry
and by the register exchange holds in all of them.
-/

namespace HartScope.Hart

/-- The states of a hart that starts from a reset, executes instructions on whatever buses, enters
interrupts and takes over registers from outside. -/
inductive Reachable : Hart → Prop where
  | reset (entry : UInt64) : Reachable (reset entry)
  | step {hart : Hart} (reached : Reachable hart) {δ : Type} [Device δ] (bus : Bus δ) :
      Reachable (hart.step bus).hart
  | enterTrap {hart : Hart} (reached : Reachable hart) (cause : UInt64) :
      Reachable (hart.enterTrap cause)
  | apply {hart : Hart} (reached : Reachable hart) (context : RegisterContext) :
      Reachable (context.apply hart)

theorem step_readOnly {δ : Type} [Device δ] (hart : Hart) (bus : Bus δ) {csr : Csr}
    (readOnly : Csrs.ReadOnly csr) : (hart.step bus).hart.csrs.get csr = hart.csrs.get csr := by
  cases outcome : (hart.step bus).result with
  | error fault => rw [congrArg Completion.hart (step_error outcome).1]
  | ok retirement =>
      obtain ⟨_, _, _, _, leaves⟩ := step_leaves outcome
      exact leaves.csrs csr (.inr readOnly)

/-- Nothing that can happen to a hart changes a read-only register. -/
theorem Reachable.readOnly {hart : Hart} (reached : hart.Reachable) {csr : Csr}
    (readOnly : Csrs.ReadOnly csr) : hart.csrs.get csr = ({} : Csrs).get csr := by
  induction reached with
  | reset entry => rfl
  | @step hart reached _ _ bus ih => exact (hart.step_readOnly bus readOnly).trans ih
  | enterTrap reached cause ih =>
      rcases readOnly with rfl | rfl <;> exact ih
  | apply reached context ih =>
      rcases readOnly with rfl | rfl <;> exact ih

end HartScope.Hart
