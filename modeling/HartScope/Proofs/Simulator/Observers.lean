import HartScope.Proofs.Reference.InStep
import HartScope.Proofs.Simulator.Cycles

/-!
Observers do not influence the guest.  Two simulators with the same hart, bus and run state go
through the same cycles, whatever watches them, as long as no reference ends the program of one of
them.  What the observers write is taken to arrive.
-/

namespace HartScope.Simulator

variable {ρ σ : Type} [ReferenceModel ρ] [ReferenceModel σ]

/-- Two ends of a stretch that agree on everything but the observers.  The counts of instructions
differ by what they differed at the start. -/
structure Alike (offset : UInt64) (left : Simulator ρ × Option SimulatorError)
    (right : Simulator σ × Option SimulatorError) : Prop where
  guest : left.1.guest = right.1.guest
  trap : left.2 = right.2
  retired : left.1.stats.retired = right.1.stats.retired + offset

variable {left : Simulator ρ} {right : Simulator σ} {offset : UInt64}

theorem cycle_alike (same : left.guest = right.guest) (leftAgrees : left.diverges = false)
    (rightAgrees : right.diverges = false)
    (retired : left.stats.retired = right.stats.retired + offset) :
    Alike offset ((left.cycle false).simulator, (left.cycle false).trap)
      ((right.cycle false).simulator, (right.cycle false).trap) := by
  obtain ⟨leftGuest, leftTrap, leftKept⟩ := left.cycle_guest false
  obtain ⟨rightGuest, rightTrap, rightKept⟩ := right.cycle_guest false
  rw [same] at leftGuest leftTrap leftKept
  refine ⟨?_, leftTrap.trans rightTrap.symm, ?_⟩
  · rw [leftGuest, rightGuest, leftAgrees, rightAgrees]
  · rw [leftKept.stats, rightKept.stats]
    cases right.guest.trap? with
    | some trap => exact retired
    | none =>
        simp only [countInstruction, Statistics.countInstruction, retired]
        grind

theorem next?_alike
    (cycled : Alike offset ((left.cycle false).simulator, (left.cycle false).trap)
      ((right.cycle false).simulator, (right.cycle false).trap)) :
    (left.next? = none ∧ right.next? = none) ∨
      ∃ leftNext rightNext, left.next? = some leftNext ∧ right.next? = some rightNext ∧
        leftNext.guest = rightNext.guest ∧
        leftNext.stats.retired = rightNext.stats.retired + offset := by
  have state : (left.cycle false).simulator.state = (right.cycle false).simulator.state :=
    congrArg Guest.state cycled.guest
  have trap : (left.cycle false).trap = (right.cycle false).trap := cycled.trap
  unfold next?
  dsimp only
  rw [trap, state]
  split
  · exact .inr ⟨_, _, rfl, rfl, cycled.guest, cycled.retired⟩
  · exact .inl ⟨rfl, rfl⟩

theorem execute_alike {count : Nat} (same : left.guest = right.guest)
    (leftAgrees : ∀ reached ∈ visited count left, reached.diverges = false)
    (rightAgrees : ∀ reached ∈ visited count right, reached.diverges = false)
    (retired : left.stats.retired = right.stats.retired + offset) (echo other : Bool) :
    Alike offset (execute echo count left #[]).outcome (execute other count right #[]).outcome := by
  induction count generalizing left right with
  | zero => exact ⟨same, rfl, retired⟩
  | succ count ih =>
      have cycled := cycle_alike same (leftAgrees left (List.mem_cons_self ..))
        (rightAgrees right (List.mem_cons_self ..)) retired
      rw [execute_succ, execute_succ]
      obtain ⟨leftStops, rightStops⟩ | ⟨leftNext, rightNext, leftGoes, rightGoes, guest, counts⟩ :=
        next?_alike cycled
      · rw [leftStops, rightStops]
        exact cycled
      · rw [leftGoes, rightGoes]
        simp only [visited, leftGoes] at leftAgrees
        simp only [visited, rightGoes] at rightAgrees
        exact ih guest (fun reached later => leftAgrees reached (List.mem_cons_of_mem _ later))
          (fun reached later => rightAgrees reached (List.mem_cons_of_mem _ later)) counts

/-- No reference is attached, or one that agrees with the hart after every instruction of the
run. -/
def Uncontradicted (simulator : Simulator ρ) (budget : UInt64) : Prop :=
  simulator.reference = none ∨ ∀ reached ∈ simulator.cycles budget, reached.mismatches = []

theorem Uncontradicted.agrees {simulator : Simulator ρ} {budget : UInt64}
    (uncontradicted : simulator.Uncontradicted budget) :
    ∀ reached ∈ simulator.cycles budget, reached.diverges = false := by
  intro reached member
  obtain unchecked | agreed := uncontradicted
  · have start : (simulator.setPhase .running).reference = none := unchecked
    refine diverges_of_unchecked (cycles_induction (fun reached => reached.reference = none) ?_
      start reached member)
    intro before after none continued
    have attached := next?_attached continued
    rw [none] at attached
    exact Option.not_isSome_iff_eq_none.mp (by simp [attached])
  · rw [diverges, agreed reached member]
    rfl

omit [ReferenceModel ρ] [ReferenceModel σ] in
theorem guest_setPhase (same : left.guest = right.guest) (phase : Phase) :
    (left.setPhase phase).guest = (right.setPhase phase).guest :=
  congrArg (fun guest : Guest => { guest with state := guest.state.setPhase phase }) same

omit [ReferenceModel ρ] [ReferenceModel σ] in
theorem finish_alike {first : Stretch ρ} {second : Stretch σ}
    (alike : Alike offset first.outcome second.outcome) :
    (finish first).result = (finish second).result ∧
      (finish first).state.guest = (finish second).state.guest ∧
      (finish first).state.stats.retired = (finish second).state.stats.retired + offset := by
  obtain ⟨guest, trap, retired⟩ := alike
  change first.simulator.guest = second.simulator.guest at guest
  change first.trap = second.trap at trap
  have state : first.simulator.state = second.simulator.state := congrArg Guest.state guest
  rw [finish_state, finish_state, finish_result, finish_result, trap, state]
  refine ⟨rfl, ?_⟩
  split
  · exact ⟨guest_setPhase guest .stopped, retired⟩
  · exact ⟨guest, retired⟩

/-- Whatever watches them, two simulators with the same hart, bus and run state answer a run with the
same result and leave these three equal, after the same number of instructions. -/
theorem run_ignores_observers (hart : left.hart = right.hart) (bus : left.bus = right.bus)
    (state : left.state = right.state) {budget : UInt64}
    (leftUncontradicted : left.Uncontradicted budget)
    (rightUncontradicted : right.Uncontradicted budget) :
    (left.run budget).result = (right.run budget).result ∧
      (left.run budget).state.hart = (right.run budget).state.hart ∧
      (left.run budget).state.bus = (right.run budget).state.bus ∧
      (left.run budget).state.state = (right.run budget).state.state ∧
      ∃ count,
        (left.run budget).state.stats.retired = left.stats.retired + count ∧
        (right.run budget).state.stats.retired = right.stats.retired + count := by
  have leftAgrees := leftUncontradicted.agrees
  have rightAgrees := rightUncontradicted.agrees
  cases finished : right.state.isFinished with
  | true =>
      rw [run_of_finished finished, run_of_finished (state ▸ finished)]
      exact ⟨rfl, hart, bus, state, 0, by simp [Reply.note], by simp [Reply.note]⟩
  | false =>
      have unfinished : left.state.isFinished = false := state ▸ finished
      rw [run_of_unfinished finished, run_of_unfinished unfinished]
      simp only [cycles, finished, unfinished] at leftAgrees rightAgrees
      have same : left.guest = right.guest := by
        simp only [guest, hart, bus, state]
      have counts : left.stats.retired =
          right.stats.retired + (left.stats.retired - right.stats.retired) := by grind
      obtain ⟨result, guest, retired⟩ := finish_alike (execute_alike
        (guest_setPhase same .running) leftAgrees rightAgrees
        counts (left.echoes budget) (right.echoes budget))
      refine ⟨result, congrArg Guest.hart guest, congrArg Guest.bus guest,
        congrArg Guest.state guest,
        (right.run budget).state.stats.retired - right.stats.retired, ?_, ?_⟩
      · rw [retired, run_of_unfinished finished]
        grind
      · rw [run_of_unfinished finished]
        grind

/-- The sample with other observers, and without its reference. -/
def plainSimulator : Simulator Interpreter :=
  { sampleSimulator with
    config := { trace := { instructions := false, calls := false, watchpoints := false } }
    ring := Ring.new 7
    tracer := { depth := 3 }
    symbols := some (SymbolTable.ofList [⟨"start", Hart.resetVector, Hart.resetVector + 12⟩])
    reference := none }

theorem sample_ignores_observers :
    (sampleSimulator.run 3).state.state.phase = .ended ∧
      (sampleSimulator.run 3).state.hart = (plainSimulator.run 3).state.hart := by
  have agreed : sampleSimulator.Uncontradicted 3 := .inr (by decide +kernel)
  have unchecked : plainSimulator.Uncontradicted 3 := .inl rfl
  have sameHart : sampleSimulator.hart = plainSimulator.hart := rfl
  obtain ⟨_, hart, _⟩ := run_ignores_observers sameHart rfl rfl agreed unchecked
  exact ⟨by decide +kernel, hart⟩

end HartScope.Simulator
