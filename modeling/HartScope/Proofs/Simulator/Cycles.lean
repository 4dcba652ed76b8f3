import HartScope.Proofs.Simulator.Guest
import HartScope.Simulator.Run

/-!
A run as the sequence of its cycles.  A cycle is the last one if it raised a trap that nothing can
service or left the program finished, and every other one hands a simulator on to the next.
-/

namespace HartScope

namespace Stretch

/-- A stretch without what left the simulator on the way. -/
def outcome {ρ : Type} (stretch : Stretch ρ) : Simulator ρ × Option SimulatorError :=
  (stretch.simulator, stretch.trap)

end Stretch

namespace Simulator

variable {ρ : Type}

theorem finish_state (stretch : Stretch ρ) :
    (finish stretch).state =
      if stretch.trap = none ∧ stretch.simulator.state.isFinished = false then
        stretch.simulator.setPhase .stopped
      else stretch.simulator := by
  cases raised : stretch.trap with
  | some trap => simp [finish, raised]
  | none =>
      cases finished : stretch.simulator.state.isFinished <;>
        simp [finish, raised, finished, Reply.note]

theorem finish_result (stretch : Stretch ρ) :
    (finish stretch).result =
      match stretch.trap with
      | some trap => .error trap
      | none => .ok () := by
  cases raised : stretch.trap with
  | some trap => simp [finish, raised]
  | none =>
      cases finished : stretch.simulator.state.isFinished <;>
        simp [finish, raised, finished, Reply.note]

theorem finish_of_outcome {first second : Stretch ρ} (same : first.outcome = second.outcome) :
    (finish first).state = (finish second).state ∧
      (finish first).result = (finish second).result := by
  obtain ⟨simulator, trap⟩ := Prod.mk.inj same
  rw [finish_state, finish_state, finish_result, finish_result, simulator, trap]
  exact ⟨rfl, rfl⟩

variable [ReferenceModel ρ]

theorem cycle_echo_irrelevant (simulator : Simulator ρ) (echo other : Bool) :
    (simulator.cycle echo).simulator = (simulator.cycle other).simulator ∧
      (simulator.cycle echo).trap = (simulator.cycle other).trap := by
  cases outcome : (simulator.hart.step simulator.bus).result with
  | ok retirement =>
      rw [cycle_of_ok simulator echo outcome, cycle_of_ok simulator other outcome]
      cases retirement <;> exact ⟨rfl, rfl⟩
  | error fault =>
      cases fault with
      | unsupportedTrap pc selector vector =>
          rw [cycle_of_trap simulator echo outcome, cycle_of_trap simulator other outcome]
          exact ⟨rfl, rfl⟩
      | invalidInstruction | memory =>
          rw [cycle_of_error simulator echo outcome (by simp),
            cycle_of_error simulator other outcome (by simp)]
          exact ⟨rfl, rfl⟩

/-- The simulator that a cycle hands on to the next one. -/
def next? (simulator : Simulator ρ) : Option (Simulator ρ) :=
  let done := simulator.cycle false
  if done.trap = none ∧ done.simulator.state.phase = .running then some done.simulator else none

theorem next?_eq (simulator : Simulator ρ) (echo : Bool) :
    simulator.next? =
      if (simulator.cycle echo).trap = none ∧
          (simulator.cycle echo).simulator.state.phase = .running then
        some (simulator.cycle echo).simulator
      else none := by
  obtain ⟨same, untrapped⟩ := simulator.cycle_echo_irrelevant false echo
  simp only [next?, same, untrapped]

variable {simulator following : Simulator ρ}

theorem next?_some (continued : simulator.next? = some following) :
    (simulator.cycle false).simulator = following ∧ following.state.phase = .running := by
  unfold next? at continued
  dsimp only at continued
  split at continued
  · rename_i onward
    cases continued
    exact ⟨rfl, onward.2⟩
  · cases continued

/-- The last cycle of a running program leaves it finished. -/
theorem next?_none (running : simulator.state.phase = .running)
    (stopped : simulator.next? = none) :
    (simulator.cycle false).simulator.state.isFinished = true := by
  obtain ⟨_, trap, _⟩ := simulator.cycle_guest false
  have state := simulator.cycle_verdict false
  unfold next? at stopped
  dsimp only at stopped
  rw [trap, state] at stopped
  rw [state]
  cases raised : simulator.guest.trap? with
  | some trap => exact simulator.guest.verdict_of_trap raised _
  | none =>
      obtain onward | finished := simulator.guest.verdict_settled running
        simulator.diverges
      · simp [raised, onward] at stopped
      · exact finished

theorem execute_succ (simulator : Simulator ρ) (echo : Bool) (count : Nat)
    (before : Array Output) :
    (execute echo (count + 1) simulator before).outcome =
      match simulator.next? with
      | some following => (execute echo count following #[]).outcome
      | none => ((simulator.cycle false).simulator, (simulator.cycle false).trap) := by
  obtain ⟨same, untrapped⟩ := simulator.cycle_echo_irrelevant echo false
  simp only [execute, next?_eq simulator echo, ← same, ← untrapped]
  cases raised : (simulator.cycle echo).trap with
  | some trap => rfl
  | none =>
      by_cases running : (simulator.cycle echo).simulator.state.phase = .running
      · obtain ⟨later, trap⟩ := execute_output_irrelevant echo count
          (simulator.cycle echo).simulator (before ++ (simulator.cycle echo).output) #[]
        simp only [running, and_self, if_true, Stretch.outcome, later, trap]
      · simp only [running, and_false, if_false]
        rfl

theorem execute_outcome_irrelevant (simulator : Simulator ρ) (echo other : Bool) (count : Nat)
    (before after : Array Output) :
    (execute echo count simulator before).outcome =
      (execute other count simulator after).outcome := by
  induction count generalizing simulator before after with
  | zero => rfl
  | succ count ih =>
      rw [execute_succ, execute_succ]
      cases simulator.next? with
      | none => rfl
      | some following => exact ih following #[] #[]

/-- In the middle of the program with no trap raised, or with a finished program. -/
def Settled (outcome : Simulator ρ × Option SimulatorError) : Prop :=
  outcome.2 = none ∧ outcome.1.state.phase = .running ∨ outcome.1.state.isFinished = true

theorem execute_settled (running : simulator.state.phase = .running) (echo : Bool) (count : Nat)
    (before : Array Output) : Settled (execute echo count simulator before).outcome := by
  induction count generalizing simulator before with
  | zero => exact .inl ⟨rfl, running⟩
  | succ count ih =>
      rw [execute_succ]
      cases continued : simulator.next? with
      | none => exact .inr (next?_none running continued)
      | some following => exact ih (next?_some continued).2 #[]

/-- The simulators at the start of each of the next `count` cycles, up to the last one. -/
def visited : (count : Nat) → Simulator ρ → List (Simulator ρ)
  | 0, _ => []
  | count + 1, simulator =>
      simulator ::
        match simulator.next? with
        | none => []
        | some following => visited count following

theorem visited_of_next (continued : simulator.next? = some following) (count : Nat) :
    visited (count + 1) simulator = simulator :: visited count following := by
  rw [visited, continued]

theorem visited_of_last (last : simulator.next? = none) (count : Nat) :
    visited (count + 1) simulator = [simulator] := by
  rw [visited, last]

theorem visited_induction (P : Simulator ρ → Prop)
    (kept : ∀ {before after : Simulator ρ}, P before → before.next? = some after → P after)
    {count : Nat} {start : Simulator ρ} (holds : P start) :
    ∀ reached ∈ visited count start, P reached := by
  induction count generalizing start with
  | zero => simp [visited]
  | succ count ih =>
      intro reached member
      obtain rfl | later := List.mem_cons.mp member
      · exact holds
      · cases continued : start.next? with
        | none => simp [continued] at later
        | some following =>
            rw [continued] at later
            exact ih (kept holds continued) reached later

theorem cycle_attached (simulator : Simulator ρ) :
    (simulator.cycle false).simulator.reference.isSome = simulator.reference.isSome := by
  obtain ⟨_, _, kept⟩ := simulator.cycle_guest false
  rw [kept.attached]
  split <;> rfl

theorem next?_attached (continued : simulator.next? = some following) :
    following.reference.isSome = simulator.reference.isSome := by
  rw [← (next?_some continued).1]
  exact simulator.cycle_attached

/-- What every cycle keeps still holds at the end of a stretch. -/
theorem execute_induction (P : Simulator ρ → Prop)
    (kept : ∀ before : Simulator ρ, P before → P (before.cycle false).simulator) (echo : Bool)
    (count : Nat) {start : Simulator ρ} (holds : P start) (output : Array Output) :
    P (execute echo count start output).simulator := by
  change P (execute echo count start output).outcome.1
  induction count generalizing start output with
  | zero => exact holds
  | succ count ih =>
      have next := kept start holds
      rw [execute_succ]
      cases continued : start.next? with
      | none => exact next
      | some following =>
          rw [(next?_some continued).1] at next
          exact ih next #[]

/-- What a cycle hands on has forgotten that a device served an access. -/
theorem next?_clear (continued : simulator.next? = some following) :
    following.bus.touched = false := by
  obtain ⟨guest, trap, _⟩ := simulator.cycle_guest false
  rw [next?_eq simulator false] at continued
  split at continued
  · rename_i onward
    obtain ⟨serviced, running⟩ := onward
    cases continued
    change (simulator.cycle false).simulator.guest.bus.touched = false
    rw [guest, Guest.cycle, ← trap, serviced]
    exact Guest.conclude_clear _ rfl
  · cases continued

/-- A cycle that hands nothing on is the last one, and the stretch ends where it ends. -/
theorem visited_last {count : Nat} {start reached : Simulator ρ} {before rest : List (Simulator ρ)}
    (split : visited count start = before ++ reached :: rest) (last : reached.next? = none)
    (echo : Bool) (output : Array Output) :
    rest = [] ∧ (execute echo count start output).outcome =
      ((reached.cycle false).simulator, (reached.cycle false).trap) := by
  induction count generalizing start before output with
  | zero =>
      rw [visited] at split
      simp at split
  | succ count ih =>
      rw [visited] at split
      rw [execute_succ]
      cases before with
      | nil =>
          obtain ⟨rfl, later⟩ := List.cons.inj split
          rw [last] at later ⊢
          exact ⟨later.symm, rfl⟩
      | cons first between =>
          obtain ⟨rfl, later⟩ := List.cons.inj split
          cases continued : start.next? with
          | none =>
              rw [continued] at later
              simp at later
          | some following =>
              rw [continued] at later
              exact ih later #[]

/-- The simulators at the start of each cycle of a run. -/
def cycles (simulator : Simulator ρ) (budget : UInt64) : List (Simulator ρ) :=
  if simulator.state.isFinished then []
  else visited budget.toNat (simulator.setPhase .running)

theorem run_of_unfinished (unfinished : simulator.state.isFinished = false) (budget : UInt64) :
    simulator.run budget = finish (execute (simulator.echoes budget) budget.toNat
      (simulator.setPhase .running) #[]) := by
  simp [run, unfinished]

theorem cycles_induction (P : Simulator ρ → Prop) {budget : UInt64}
    (kept : ∀ {before after : Simulator ρ}, P before → before.next? = some after → P after)
    (holds : P (simulator.setPhase .running)) :
    ∀ reached ∈ simulator.cycles budget, P reached := by
  intro reached member
  unfold cycles at member
  split at member
  · cases member
  · exact visited_induction P kept holds reached member

theorem run_induction (P : Simulator ρ → Prop)
    (phased : ∀ (before : Simulator ρ) (phase : Phase), P before → P (before.setPhase phase))
    (kept : ∀ before : Simulator ρ, P before → P (before.cycle false).simulator)
    (holds : P simulator) (budget : UInt64) : P (simulator.run budget).state := by
  cases finished : simulator.state.isFinished with
  | true =>
      rw [run_of_finished finished]
      exact holds
  | false =>
      have ending := execute_induction P kept (simulator.echoes budget) budget.toNat
        (phased simulator .running holds) #[]
      rw [run_of_unfinished finished, finish_state]
      split
      · exact phased _ .stopped ending
      · exact ending

theorem run_attached (simulator : Simulator ρ) (budget : UInt64) :
    (simulator.run budget).state.reference.isSome = simulator.reference.isSome :=
  run_induction (fun reached => reached.reference.isSome = simulator.reference.isSome)
    (fun _ _ same => same) (fun before same => before.cycle_attached.trans same) rfl budget

/-- A run whose last cycle finishes the program hands back what that cycle leaves. -/
theorem run_last {budget : UInt64} {reached : Simulator ρ} {before rest : List (Simulator ρ)}
    (split : simulator.cycles budget = before ++ reached :: rest)
    (finished : (reached.cycle false).simulator.state.isFinished = true) :
    rest = [] ∧ (simulator.run budget).state = (reached.cycle false).simulator := by
  have last : reached.next? = none := by
    rw [next?_eq reached false]
    apply if_neg
    rintro ⟨_, running⟩
    rw [RunState.unfinished_of_running running] at finished
    cases finished
  cases unfinished : simulator.state.isFinished with
  | true => simp [cycles, unfinished] at split
  | false =>
      rw [cycles, unfinished] at split
      obtain ⟨nothing, ending⟩ := visited_last split last (simulator.echoes budget) #[]
      have stopped : (execute (simulator.echoes budget) budget.toNat
          (simulator.setPhase .running) #[]).simulator = (reached.cycle false).simulator :=
        congrArg Prod.fst ending
      rw [run_of_unfinished unfinished, finish_state, stopped, finished]
      simp [nothing]

end Simulator

end HartScope
