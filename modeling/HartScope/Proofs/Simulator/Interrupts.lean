import HartScope.Proofs.Hart.Interrupts
import HartScope.Proofs.Reference.Calls
import HartScope.Proofs.Simulator.Outcome

/-!
Where interrupts enter a run.  The end of a cycle enters one as soon as it can, and between two of
them the guest has had to enable interrupts again.  A cycle that a failing writer would cut short, before its
end, is not covered.
-/

namespace HartScope

theorem Guest.cycle_ram (guest : Guest) (diverges : Bool) :
    (guest.cycle diverges).bus.ram = (guest.hart.step guest.bus).bus.ram := by
  simp only [cycle, conclude]
  split
  · rfl
  · split <;> rfl

namespace Simulator

variable {ρ : Type} [ReferenceModel ρ]

/-- The end of the next cycle does not leave the hart as the instruction left it. -/
def EntersInterrupt (simulator : Simulator ρ) : Prop :=
  (simulator.cycle false).simulator.hart ≠ (simulator.hart.step simulator.bus).hart

instance (simulator : Simulator ρ) : Decidable simulator.EntersInterrupt :=
  inferInstanceAs (Decidable (_ ≠ _))

/-- How the next cycle deals with interrupts. -/
structure Delivers (simulator : Simulator ρ) : Prop where
  entered_iff :
    simulator.EntersInterrupt ↔
      (simulator.cycle false).simulator.state.phase = .running ∧
        (simulator.hart.step simulator.bus).hart.InterruptPending
  entry :
    simulator.EntersInterrupt →
      (simulator.hart.step simulator.bus).hart.InterruptEntry
          (simulator.cycle false).simulator.hart ∧
        (simulator.cycle false).simulator.bus.ram = (simulator.hart.step simulator.bus).bus.ram
  withheld : simulator.Halts ∨ simulator.Faults → ¬simulator.EntersInterrupt

variable {simulator first second : Simulator ρ}

theorem cycle_entry (running : (simulator.cycle false).simulator.state.phase = .running)
    (pending : (simulator.hart.step simulator.bus).hart.InterruptPending) :
    (simulator.hart.step simulator.bus).hart.InterruptEntry
      (simulator.cycle false).simulator.hart := by
  obtain ⟨cause, raised⟩ := Option.isSome_iff_exists.mp
    ((Hart.pendingInterrupt?_isSome_iff _).mpr pending)
  have interrupt : simulator.interrupt? = some cause := (if_pos running).trans raised
  rw [cycle_hart, interrupt]
  exact Hart.enterTrap_entry raised

theorem entersInterrupt_iff (simulator : Simulator ρ) :
    simulator.EntersInterrupt ↔
      (simulator.cycle false).simulator.state.phase = .running ∧
        (simulator.hart.step simulator.bus).hart.InterruptPending := by
  constructor
  · intro entered
    cases interrupt : simulator.interrupt? with
    | none =>
        have same := simulator.cycle_hart
        rw [interrupt] at same
        exact absurd same entered
    | some cause =>
        rw [interrupt?, Hart.entered?] at interrupt
        split at interrupt
        · rename_i running
          exact ⟨running, (Hart.pendingInterrupt?_isSome_iff _).mp (by rw [interrupt]; rfl)⟩
        · cases interrupt
  · rintro ⟨running, pending⟩ same
    -- The enable bit tells the two harts apart.
    have disabled := (cycle_entry running pending).disabled
    rw [same, pending.1] at disabled
    contradiction

theorem delivers (simulator : Simulator ρ) : simulator.Delivers where
  entered_iff := simulator.entersInterrupt_iff
  entry := by
    intro entered
    obtain ⟨onward, pending⟩ := simulator.entersInterrupt_iff.mp entered
    have ram := congrArg (·.bus.ram) (simulator.cycle_guest false).1
    exact ⟨cycle_entry onward pending, ram.trans (simulator.guest.cycle_ram _)⟩
  withheld := by
    intro stopped entered
    have onward := (simulator.entersInterrupt_iff.mp entered).1
    rw [cycle_verdict] at onward
    rcases simulator.verdict_cases with
      ⟨going, retires, _⟩ | ⟨_, _, _, state⟩ | ⟨_, _, state⟩
    · exact stopped.elim going retires
    · rw [state] at onward
      cases onward
    · rw [state] at onward
      cases onward

/-- Interrupts are disabled when the next cycle begins. -/
def Disabled (simulator : Simulator ρ) : Prop :=
  simulator.hart.csrs.interruptsEnabled = false

theorem cycle_disabled (entered : simulator.EntersInterrupt) :
    (simulator.cycle false).simulator.Disabled := by
  obtain ⟨running, pending⟩ := simulator.entersInterrupt_iff.mp entered
  rw [Disabled, Csrs.interruptsEnabled_eq]
  exact (cycle_entry running pending).disabled

/-- Without a write to the status register a cycle enters no interrupt, and enables none. -/
theorem cycle_keeps_disabled (disabled : simulator.Disabled)
    (spared : ¬simulator.hart.RetiresStatusWrite simulator.bus) :
    ¬simulator.EntersInterrupt ∧ (simulator.cycle false).simulator.Disabled := by
  have after := Hart.step_disabled disabled spared
  have idle : ¬simulator.EntersInterrupt := by
    intro entered
    have enabled := (simulator.entersInterrupt_iff.mp entered).2.1
    rw [← Csrs.interruptsEnabled_eq, after] at enabled
    contradiction
  refine ⟨idle, ?_⟩
  rw [Disabled, Decidable.not_not.mp idle]
  exact after

theorem visited_cons {count : Nat} {start head : Simulator ρ} {rest : List (Simulator ρ)}
    (split : visited count start = head :: rest) :
    head = start ∧ ∃ left, visited left (start.cycle false).simulator = rest := by
  cases count with
  | zero => cases split
  | succ count =>
      cases continued : start.next? with
      | none =>
          rw [visited_of_last continued] at split
          obtain ⟨same, rfl⟩ := List.cons.inj split
          exact ⟨same.symm, 0, rfl⟩
      | some following =>
          rw [visited_of_next continued] at split
          obtain ⟨same, rfl⟩ := List.cons.inj split
          exact ⟨same.symm, count, by rw [(next?_some continued).1]⟩

theorem visited_suffix {count : Nat} {start : Simulator ρ} {early rest : List (Simulator ρ)}
    (split : visited count start = early ++ first :: rest) :
    ∃ left, visited left first = first :: rest := by
  induction early generalizing count start with
  | nil =>
      obtain ⟨rfl, _⟩ := visited_cons split
      exact ⟨count, split⟩
  | cons head between ih =>
      obtain ⟨_, left, later⟩ := visited_cons split
      exact ih later

/-- Where interrupts are disabled, a write to the status register stands before the next one that is
entered. -/
theorem visited_reenabled {count : Nat} {start : Simulator ρ} {between late : List (Simulator ρ)}
    (split : visited count start = between ++ second :: late) (disabled : start.Disabled)
    (entered : second.EntersInterrupt) :
    ∃ reached ∈ between ++ [second], reached.hart.RetiresStatusWrite reached.bus := by
  induction between generalizing count start with
  | nil =>
      obtain ⟨rfl, _⟩ := visited_cons split
      by_cases writes : second.hart.RetiresStatusWrite second.bus
      · exact ⟨second, by simp, writes⟩
      · exact absurd entered (cycle_keeps_disabled disabled writes).1
  | cons head between ih =>
      obtain ⟨rfl, left, later⟩ := visited_cons split
      by_cases writes : head.hart.RetiresStatusWrite head.bus
      · exact ⟨head, by simp, writes⟩
      · obtain ⟨reached, member, found⟩ := ih later (cycle_keeps_disabled disabled writes).2
        exact ⟨reached, List.mem_cons_of_mem _ member, found⟩

/-- In every run the end of a cycle that leaves the program running enters an interrupt exactly if it
can, and between two of them the guest retires a trap return or a write to the status register. -/
theorem run_delivers_interrupts (simulator : Simulator ρ) (budget : UInt64) :
    (∀ reached ∈ simulator.cycles budget, reached.Delivers) ∧
      ∀ early first between second late,
        simulator.cycles budget = early ++ first :: (between ++ second :: late) →
        first.EntersInterrupt → second.EntersInterrupt →
        ∃ reached ∈ between ++ [second], reached.hart.RetiresStatusWrite reached.bus := by
  refine ⟨fun reached _ => reached.delivers, ?_⟩
  intro early first between second late split entered again
  unfold cycles at split
  split at split
  · simp at split
  · obtain ⟨_, suffix⟩ := visited_suffix split
    obtain ⟨_, _, later⟩ := visited_cons suffix
    exact visited_reenabled later (cycle_disabled entered) again

/-- The timer line is pending and enabled, and the handler behind the first instruction returns. -/
def tickingSimulator : Simulator Interpreter :=
  { sampleSimulator with
    hart :=
      { Hart.reset Hart.resetVector with
        csrs := { mstatus := 0xA00001808, mie := 0x80, mip := 0x80, mtvec := Hart.resetVector + 4 } }
    bus.ram := (sampleSimulator.bus.ram.load? Hart.resetVector
      ([0x00000013, 0x30200073].flatMap LittleEndian.wordBytes)).getD sampleSimulator.bus.ram
    reference := none }

theorem ticking_run_delivers_interrupts :
    let first := tickingSimulator.setPhase .running
    let second := (first.cycle false).simulator
    tickingSimulator.cycles 2 = [first, second] ∧ first.EntersInterrupt ∧ second.EntersInterrupt ∧
      (first.hart.step first.bus).hart.InterruptEntry second.hart ∧
      second.hart.RetiresStatusWrite second.bus := by
  intro first second
  have onward : first.next? = some second := by
    rw [next?_eq first false, if_pos (by decide +kernel)]
  have again : second.next? = some (second.cycle false).simulator := by
    rw [next?_eq second false, if_pos (by decide +kernel)]
  have cycles : tickingSimulator.cycles 2 = [first, second] := by
    have started : tickingSimulator.cycles 2 = visited 2 first := if_neg (by decide)
    rw [started, visited_of_next onward, visited_of_next again]
    rfl
  have entered : first.EntersInterrupt := by decide +kernel
  have reentered : second.EntersInterrupt := by decide +kernel
  obtain ⟨delivered, enabled⟩ := run_delivers_interrupts tickingSimulator 2
  obtain ⟨reached, member, writes⟩ := enabled [] first [] second [] cycles entered reentered
  rw [List.mem_singleton.mp member] at writes
  have delivers : first.Delivers := delivered first (by rw [cycles]; exact List.mem_cons_self)
  exact ⟨cycles, entered, reentered, (delivers.entry entered).1, writes⟩

end Simulator

end HartScope
