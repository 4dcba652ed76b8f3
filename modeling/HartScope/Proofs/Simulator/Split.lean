import HartScope.Proofs.Reference.InStep
import HartScope.Proofs.Simulator.Cycles

/-!
Runs in pieces.  A budget spent in two runs leaves what one run with the whole budget leaves: a run
that pauses hands on everything that the next one needs, and a program that has finished does not
run again.  All of this is about runs whose output is taken.
-/

namespace HartScope

variable {ρ : Type}

/-- The stretch with up to `count` further cycles, if the program goes on. -/
def Stretch.extend [ReferenceModel ρ] (echo : Bool) (count : Nat) (stretch : Stretch ρ) : Stretch ρ :=
  if stretch.trap = none ∧ stretch.simulator.state.phase = .running then
    Simulator.execute echo count stretch.simulator stretch.output
  else stretch

theorem Reply.andThen_of_ok {σ : Type} {reply : Reply σ Unit} {next : σ → Reply σ Unit}
    (success : reply.result = .ok ()) :
    (reply.andThen next).result = (next reply.state).result := by
  simp only [andThen, success]

theorem Reply.andThen_result {σ : Type} {reply : Reply σ Unit} {next : σ → Reply σ Unit}
    (success : (next reply.state).result = .ok ()) :
    (reply.andThen next).result = reply.result := by
  unfold andThen
  cases outcome : reply.result with
  | error cause => rfl
  | ok _ => exact success

namespace Simulator

theorem setPhase_resumed {simulator : Simulator ρ} (running : simulator.state.phase = .running) :
    (simulator.setPhase .stopped).setPhase .running = simulator := by
  simp [setPhase, RunState.setPhase, ← running]

variable [ReferenceModel ρ]

theorem execute_add {simulator : Simulator ρ} (running : simulator.state.phase = .running)
    (echo : Bool) (first second : Nat) (before : Array Output) :
    execute echo (first + second) simulator before =
      (execute echo first simulator before).extend echo second := by
  induction first generalizing simulator before with
  | zero => simp [execute, Stretch.extend, running]
  | succ first ih =>
      rw [Nat.add_right_comm]
      simp only [execute]
      cases raised : (simulator.cycle echo).trap with
      | some trap => simp [Stretch.extend]
      | none =>
          by_cases onward : (simulator.cycle echo).simulator.state.phase = .running
          · simpa only [onward, if_true] using ih onward _
          · simp [onward, Stretch.extend]

/-- What a run with the budgets of two runs does after the first of them is over. -/
theorem run_add_of_unfinished {simulator : Simulator ρ}
    (unfinished : simulator.state.isFinished = false) {first second : UInt64}
    (bound : first.toNat + second.toNat < UInt64.size) :
    let echo := simulator.echoes first
    let stretch := execute echo first.toNat (simulator.setPhase .running) #[]
    (simulator.run first) = finish stretch ∧
      (simulator.run (first + second)).state = (finish (stretch.extend echo second.toNat)).state ∧
      (simulator.run (first + second)).result =
        (finish (stretch.extend echo second.toNat)).result := by
  intro echo stretch
  have total : (first + second).toNat = first.toNat + second.toNat := by
    rw [UInt64.toNat_add]
    exact Nat.mod_eq_of_lt bound
  have outcome : (execute (simulator.echoes (first + second)) (first + second).toNat
      (simulator.setPhase .running) #[]).outcome = (stretch.extend echo second.toNat).outcome := by
    rw [execute_outcome_irrelevant _ _ echo _ _ #[], total, execute_add rfl]
  rw [run_of_unfinished unfinished, run_of_unfinished unfinished]
  exact ⟨rfl, finish_of_outcome outcome⟩

/-- A run that paused is gone on with where it stopped; the phase is all that shows the pause. -/
theorem run_of_paused {stretch : Stretch ρ} (serviced : stretch.trap = none)
    (running : stretch.simulator.state.phase = .running) (echo : Bool) (budget : UInt64) :
    (finish stretch).result = .ok () ∧
      ((finish stretch).state.run budget).state =
        (finish (stretch.extend echo budget.toNat)).state ∧
      ((finish stretch).state.run budget).result =
        (finish (stretch.extend echo budget.toNat)).result := by
  have unfinished := RunState.unfinished_of_running running
  have paused : (finish stretch).state = stretch.simulator.setPhase .stopped := by
    rw [finish_state, if_pos ⟨serviced, unfinished⟩]
  have continued : stretch.extend echo budget.toNat =
      execute echo budget.toNat stretch.simulator stretch.output := if_pos ⟨serviced, running⟩
  refine ⟨by rw [finish_result, serviced], ?_⟩
  rw [paused, continued, run_of_unfinished rfl, setPhase_resumed running]
  exact finish_of_outcome (execute_outcome_irrelevant _ _ _ _ _ _)

/-- After a run that finished the program there is nothing to go on with. -/
theorem run_of_over {stretch : Stretch ρ} (finished : stretch.simulator.state.isFinished = true)
    (echo : Bool) (budget : UInt64) :
    stretch.extend echo budget.toNat = stretch ∧
      (finish stretch).state.run budget = .note (finish stretch).state [.console endedNotice] := by
  have stopped : (finish stretch).state = stretch.simulator := by
    rw [finish_state, finished]
    simp
  constructor
  · apply if_neg
    rintro ⟨_, running⟩
    rw [RunState.unfinished_of_running running] at finished
    cases finished
  · rw [stopped, run_of_finished finished]

/-- Two runs leave what one run with both budgets leaves, and their caller learns of the same
trap, wherever the program pauses, halts, fails or diverges. -/
theorem run_split (simulator : Simulator ρ) {first second : UInt64}
    (bound : first.toNat + second.toNat < UInt64.size) :
    ((simulator.run first).state.run second).state = (simulator.run (first + second)).state ∧
      ((simulator.run first).andThen fun paused => paused.run second).result =
        (simulator.run (first + second)).result := by
  cases unfinished : simulator.state.isFinished with
  | true => simp [run_of_finished unfinished, Reply.note, Reply.andThen]
  | false =>
      obtain ⟨run, state, result⟩ := run_add_of_unfinished unfinished bound
      have settled : Settled (execute (simulator.echoes first) first.toNat
        (simulator.setPhase .running) #[]).outcome := execute_settled rfl _ _ _
      rw [state, result, run]
      generalize execute _ _ (simulator.setPhase .running) #[] = stretch at settled ⊢
      obtain ⟨serviced, running⟩ | finished := settled
      · obtain ⟨success, sameState, sameResult⟩ :=
          run_of_paused serviced running (simulator.echoes first) second
        exact ⟨sameState, (Reply.andThen_of_ok success).trans sameResult⟩
      · obtain ⟨nothing, idle⟩ := run_of_over finished (simulator.echoes first) second
        rw [nothing, idle]
        exact ⟨rfl, Reply.andThen_result (by rw [idle]; rfl)⟩

theorem halting_run_split :
    (sampleSimulator.run (1 + 2)).state.state.phase = .ended ∧
      ((sampleSimulator.run 1).state.run 2).state = (sampleSimulator.run (1 + 2)).state := by
  have bound : (1 : UInt64).toNat + (2 : UInt64).toNat < UInt64.size := by decide
  exact ⟨by decide +kernel, (run_split sampleSimulator bound).1⟩

end Simulator

end HartScope
