import HartScope.Proofs.Hart.Decoding
import HartScope.Proofs.Reference.InStep
import HartScope.Proofs.Simulator.Cycles

/-!
How a run ends.  It executes instructions until its budget is spent or one of them halts, fails or
leaves the reference disagreeing.  The run state, the counter and the result tell which it was.  The
error of a writer that fails is not one of the results.
-/

namespace HartScope

theorem Guest.trap?_eq_some_iff (guest : Guest) (trap : SimulatorError) :
    guest.trap? = some trap ↔
      guest.hart.fetched? guest.bus = some Instruction.ecallWord ∧
        guest.hart.trapSupported = false ∧
        trap = .unsupportedTrap guest.hart.pc (guest.hart.get Reg.a7) guest.hart.csrs.mtvec := by
  constructor
  · intro raised
    unfold trap? at raised
    split at raised
    · rename_i outcome
      obtain ⟨fetched, unsupported, rfl, rfl, rfl⟩ := Hart.step_trap_iff.mp outcome
      cases raised
      exact ⟨fetched, unsupported, rfl⟩
    · contradiction
  · rintro ⟨fetched, unsupported, rfl⟩
    have outcome := Hart.step_trap_iff.mpr ⟨fetched, unsupported, rfl, rfl, rfl⟩
    simp only [trap?, outcome]

namespace Simulator

section Instruction

variable {ρ : Type} {simulator : Simulator ρ}

/-- The next instruction halts the program. -/
def Halts (simulator : Simulator ρ) : Prop :=
  simulator.hart.fetched? simulator.bus = some Instruction.ebreakWord

def Faults (simulator : Simulator ρ) : Prop :=
  ∃ fault, (simulator.hart.step simulator.bus).result = .error fault

/-- The next instruction is an environment call that nothing can service. -/
def RefusesCall (simulator : Simulator ρ) : Prop :=
  simulator.hart.fetched? simulator.bus = some Instruction.ecallWord ∧
    simulator.hart.trapSupported = false

instance (simulator : Simulator ρ) : Decidable simulator.RefusesCall :=
  inferInstanceAs (Decidable (_ ∧ _))

theorem faults_of_refusesCall (refuses : simulator.RefusesCall) : simulator.Faults :=
  ⟨_, Hart.step_trap_iff.mpr ⟨refuses.1, refuses.2, rfl, rfl, rfl⟩⟩

theorem refusesCall_iff : simulator.RefusesCall ↔ simulator.guest.trap?.isSome := by
  have trapped := simulator.guest.trap?_eq_some_iff
  rw [Option.isSome_iff_exists]
  constructor
  · rintro ⟨fetched, unsupported⟩
    exact ⟨_, (trapped _).mpr ⟨fetched, unsupported, rfl⟩⟩
  · rintro ⟨trap, raised⟩
    obtain ⟨fetched, unsupported, _⟩ := (trapped trap).mp raised
    exact ⟨fetched, unsupported⟩

theorem not_faults_of_ok {retirement : Retirement}
    (outcome : (simulator.hart.step simulator.bus).result = .ok retirement) :
    ¬simulator.Faults := by
  rintro ⟨fault, failed⟩
  rw [outcome] at failed
  cases failed

theorem not_faults_of_halts (halts : simulator.Halts) : ¬simulator.Faults :=
  not_faults_of_ok (Hart.step_halt_iff.mpr ⟨halts, rfl⟩)

end Instruction

variable {ρ : Type} [ReferenceModel ρ] {simulator start : Simulator ρ}

/-- The next instruction goes on, halts the program, or cuts it short. -/
theorem verdict_cases (simulator : Simulator ρ) :
    let after := simulator.hart.step simulator.bus
    let state := simulator.guest.verdict simulator.diverges
    (¬simulator.Halts ∧ ¬simulator.Faults ∧ simulator.diverges = false ∧ state = simulator.state) ∨
    (simulator.Halts ∧ simulator.diverges = false ∧ after.hart = simulator.hart.advance ∧
      state = .ended simulator.hart.pc (simulator.hart.get Reg.a0)) ∨
    ((simulator.Faults ∨ simulator.diverges = true) ∧
      (simulator.Faults → after.hart = simulator.hart) ∧
      state = .aborted simulator.hart.pc RunState.abortValue) := by
  intro after state
  cases outcome : (simulator.hart.step simulator.bus).result with
  | error fault =>
      exact .inr (.inr ⟨.inl ⟨fault, outcome⟩,
        fun _ => congrArg Completion.hart (Hart.step_error outcome).1,
        simulator.guest.verdict_of_error outcome _⟩)
  | ok retirement =>
      have retires : ¬simulator.Faults := not_faults_of_ok outcome
      have settled : state = _ := simulator.guest.verdict_of_ok outcome _
      cases diverged : simulator.diverges with
      | true =>
          rw [diverged] at settled
          exact .inr (.inr ⟨.inr rfl, fun faults => absurd faults retires, settled⟩)
      | false =>
          rw [diverged] at settled
          cases retirement with
          | next =>
              have onward : ¬simulator.Halts := by
                intro halts
                rw [Hart.step_halt_iff.mpr ⟨halts, rfl⟩] at outcome
                cases outcome
              exact .inl ⟨onward, retires, rfl, settled⟩
          | halt value =>
              obtain ⟨halts, rfl⟩ := Hart.step_halt_iff.mp outcome
              exact .inr (.inl ⟨halts, rfl, Hart.step_halt_advances outcome, settled⟩)

theorem next?_isSome (simulator : Simulator ρ) :
    simulator.next?.isSome ↔
      ¬simulator.RefusesCall ∧ (simulator.guest.verdict simulator.diverges).phase = .running := by
  obtain ⟨_, trap, _⟩ := simulator.cycle_guest false
  rw [next?_eq simulator false, trap, cycle_verdict, refusesCall_iff]
  split <;> simp_all

/-- A cycle goes on to the next one unless its instruction halts, fails or diverges. -/
theorem next?_isSome_iff (running : simulator.state.phase = .running) :
    simulator.next?.isSome ↔ ¬simulator.Halts ∧ ¬simulator.Faults ∧ simulator.diverges = false := by
  rw [next?_isSome]
  obtain ⟨onward, retires, agreed, state⟩ | ⟨halts, _, _, state⟩ | ⟨failed, _, state⟩ :=
    simulator.verdict_cases
  · have accepts : ¬simulator.RefusesCall := fun refuses => retires (faults_of_refusesCall refuses)
    exact iff_of_true ⟨accepts, by rw [state, running]⟩ ⟨onward, retires, agreed⟩
  · simp [halts, state, RunState.ended]
  · refine iff_of_false (by simp [state, RunState.aborted]) ?_
    rintro ⟨_, retires, agreed⟩
    simp [retires, agreed] at failed

theorem cycle_of_last (running : simulator.state.phase = .running) (last : simulator.next? = none) :
    let after := (simulator.cycle false).simulator
    simulator.Halts ∧ simulator.diverges = false ∧ after.hart = simulator.hart.advance ∧
        after.state = .ended simulator.hart.pc (simulator.hart.get Reg.a0) ∨
      (simulator.Faults ∨ simulator.diverges = true) ∧
        (simulator.Faults → after.hart = simulator.hart) ∧
        after.state = .aborted simulator.hart.pc RunState.abortValue := by
  intro after
  have state : after.state = simulator.guest.verdict simulator.diverges :=
    simulator.cycle_verdict false
  have finished : after.state.isFinished = true := next?_none running last
  -- A finished program takes no interrupt, so the hart is as the instruction left it.
  have hart : after.hart = (simulator.hart.step simulator.bus).hart := by
    have cycle := congrArg Guest.hart (simulator.cycle_guest false).1
    have uninterrupted : (simulator.hart.step simulator.bus).hart.entered? after.state = none := by
      apply if_neg
      intro going
      rw [RunState.unfinished_of_running going] at finished
      cases finished
    rw [Guest.cycle_hart, ← state] at cycle
    simp only [Simulator.guest, uninterrupted] at cycle
    exact cycle
  rw [state, hart]
  obtain ⟨_, _, _, still⟩ | ended | aborted := simulator.verdict_cases
  · rw [state, still, RunState.unfinished_of_running running] at finished
    cases finished
  · exact .inl ended
  · exact .inr aborted

theorem visited_cases (count : Nat) (start : Simulator ρ) :
    ((visited count start).length = count ∧
      (∀ reached ∈ visited count start, reached.next?.isSome)) ∨
    (∃ before last, visited count start = before ++ [last] ∧ before.length < count ∧
      last.next? = none) := by
  induction count generalizing start with
  | zero => exact .inl ⟨rfl, by simp [visited]⟩
  | succ count ih =>
      cases continued : start.next? with
      | none =>
          rw [visited_of_last continued]
          exact .inr ⟨[], start, rfl, Nat.succ_pos count, continued⟩
      | some following =>
          rw [visited_of_next continued]
          obtain ⟨length, onward⟩ | ⟨before, last, split, short, ending⟩ := ih following
          · refine .inl ⟨by simp [length], ?_⟩
            intro reached member
            obtain rfl | later := List.mem_cons.mp member
            · rw [continued]
              rfl
            · exact onward reached later
          · exact .inr ⟨start :: before, last, by rw [split]; rfl, Nat.succ_lt_succ short, ending⟩

theorem execute_of_onward {count : Nat}
    (onward : ∀ reached ∈ visited count start, reached.next?.isSome)
    (running : start.state.phase = .running) (echo : Bool) (output : Array Output) :
    (execute echo count start output).outcome.2 = none ∧
      (execute echo count start output).outcome.1.state.phase = .running := by
  induction count generalizing start output with
  | zero => exact ⟨rfl, running⟩
  | succ count ih =>
      rw [execute_succ]
      cases continued : start.next? with
      | none =>
          have first := onward start (by simp [visited_of_last continued])
          simp [continued] at first
      | some following =>
          rw [visited_of_next continued] at onward
          exact ih (fun reached later => onward reached (List.mem_cons_of_mem _ later))
            (next?_some continued).2 #[]

theorem cycles_of_unfinished (unfinished : simulator.state.isFinished = false) (budget : UInt64) :
    simulator.cycles budget = visited budget.toNat (simulator.setPhase .running) := by
  simp [cycles, unfinished]

theorem cycles_running (simulator : Simulator ρ) (budget : UInt64) :
    ∀ reached ∈ simulator.cycles budget, reached.state.phase = .running :=
  cycles_induction (·.state.phase = .running) (fun _ continued => (next?_some continued).2) rfl

/-- A run spends its budget on instructions that all go on, or stops at the first that does not. -/
theorem run_cases (unfinished : simulator.state.isFinished = false) (budget : UInt64) :
    ((simulator.cycles budget).length = budget.toNat ∧
      (∀ reached ∈ simulator.cycles budget, reached.next?.isSome) ∧
      (simulator.run budget).state.state.phase = .stopped ∧
      (simulator.run budget).result = .ok ()) ∨
    (∃ before last, simulator.cycles budget = before ++ [last] ∧ before.length < budget.toNat ∧
      last.next? = none ∧
      (simulator.run budget).state = (last.cycle false).simulator ∧
      ∀ trap, (simulator.run budget).result = .error trap ↔ last.guest.trap? = some trap) := by
  have going := simulator.cycles_running budget
  rw [cycles_of_unfinished unfinished] at going ⊢
  rw [run_of_unfinished unfinished, finish_state, finish_result]
  obtain ⟨length, onward⟩ | ⟨before, last, split, short, ending⟩ :=
    visited_cases budget.toNat (simulator.setPhase .running)
  · obtain ⟨untrapped, going⟩ := execute_of_onward onward rfl (simulator.echoes budget) #[]
    simp only [Stretch.outcome] at untrapped going
    have unfinished := RunState.unfinished_of_running going
    refine .inl ⟨length, onward, ?_, ?_⟩
    · rw [if_pos ⟨untrapped, unfinished⟩]
      rfl
    · rw [untrapped]
  · obtain ⟨_, outcome⟩ := visited_last split ending (simulator.echoes budget) #[]
    obtain ⟨left, trap⟩ := Prod.mk.inj outcome
    have finished := next?_none (going last (by simp [split])) ending
    refine .inr ⟨before, last, split, short, ending, ?_, ?_⟩
    · rw [left, finished]
      simp
    · rw [trap, (last.cycle_guest false).2.1]
      cases last.guest.trap? <;> simp

theorem cycle_retired (simulator : Simulator ρ) :
    (simulator.cycle false).simulator.stats.retired =
      simulator.stats.retired + if simulator.RefusesCall then 0 else 1 := by
  obtain ⟨_, _, kept⟩ := simulator.cycle_guest false
  rw [kept.stats]
  cases raised : simulator.guest.trap? with
  | some trap => simp [refusesCall_iff, raised]
  | none => simp [refusesCall_iff, raised, countInstruction, Statistics.countInstruction]

theorem execute_retired (echo : Bool) (count : Nat) (start : Simulator ρ) (output : Array Output) :
    (execute echo count start output).outcome.1.stats.retired =
      start.stats.retired +
        UInt64.ofNat ((visited count start).countP (fun reached => ¬reached.RefusesCall)) := by
  induction count generalizing start output with
  | zero =>
      simp only [visited, List.countP_nil]
      exact (UInt64.add_zero _).symm
  | succ count ih =>
      have counted := start.cycle_retired
      rw [execute_succ]
      cases continued : start.next? with
      | none =>
          rw [visited_of_last continued, List.countP_singleton]
          by_cases refuses : start.RefusesCall <;> simp [counted, refuses]
      | some following =>
          rw [(next?_some continued).1] at counted
          rw [visited_of_next continued, ih, counted, List.countP_cons, UInt64.ofNat_add]
          by_cases refuses : start.RefusesCall <;>
            simp [refuses, UInt64.add_assoc, UInt64.add_comm 1]

theorem run_retired (unfinished : simulator.state.isFinished = false) (budget : UInt64) :
    (simulator.run budget).state.stats.retired =
      simulator.stats.retired +
        UInt64.ofNat ((simulator.cycles budget).countP (fun reached => ¬reached.RefusesCall)) := by
  have counted := execute_retired (simulator.echoes budget) budget.toNat
    (simulator.setPhase .running) #[]
  rw [run_of_unfinished unfinished, finish_state, cycles_of_unfinished unfinished]
  split <;> exact counted

/-- The cycles from `start` to `stop`, each named by the simulator at its start. -/
def Path : List (Simulator ρ) → (start stop : Simulator ρ) → Prop
  | [], start, stop => stop = start
  | reached :: rest, start, stop => reached = start ∧ Path rest (reached.cycle false).simulator stop

theorem execute_path (echo : Bool) (count : Nat) (start : Simulator ρ) (output : Array Output) :
    Path (visited count start) start (execute echo count start output).simulator := by
  change Path _ _ (execute echo count start output).outcome.1
  induction count generalizing start output with
  | zero => exact rfl
  | succ count ih =>
      rw [execute_succ]
      cases continued : start.next? with
      | none =>
          rw [visited_of_last continued]
          exact ⟨rfl, rfl⟩
      | some following =>
          rw [visited_of_next continued]
          refine ⟨rfl, ?_⟩
          rw [(next?_some continued).1]
          exact ih following #[]

/-- A run goes where its cycles lead, and stops there unless the program has finished. -/
theorem run_path (unfinished : simulator.state.isFinished = false) (budget : UInt64) :
    ∃ stop, Path (simulator.cycles budget) (simulator.setPhase .running) stop ∧
      (simulator.run budget).state =
        if stop.state.isFinished then stop else stop.setPhase .stopped := by
  rw [run_of_unfinished unfinished, finish_state, cycles_of_unfinished unfinished]
  refine ⟨_, execute_path (simulator.echoes budget) _ _ #[], ?_⟩
  obtain ⟨untrapped, going⟩ | finished :=
    execute_settled (show (simulator.setPhase .running).state.phase = .running from rfl)
      (simulator.echoes budget) budget.toNat #[]
  · have unfinished := RunState.unfinished_of_running going
    simp only [Stretch.outcome] at untrapped unfinished
    simp [untrapped, unfinished]
  · simp only [Stretch.outcome] at finished
    simp [finished]

/-- How a run of at most `budget` instructions ends.  `executed` has the simulator at the start of
each instruction that the run executed. -/
structure Concludes (before : Simulator ρ) (budget : UInt64) (executed : List (Simulator ρ))
    (after : Simulator ρ) (result : Except SimulatorError Unit) : Prop where
  path :
    ∃ stop, Path executed (before.setPhase .running) stop ∧
      after = if stop.state.isFinished then stop else stop.setPhase .stopped
  within_budget : executed.length ≤ budget.toNat
  settled : after.state.phase = .stopped ∨ after.state.phase = .ended ∨ after.state.phase = .aborted
  stopped_iff :
    after.state.phase = .stopped ↔
      executed.length = budget.toNat ∧
        ∀ reached ∈ executed, ¬reached.Halts ∧ ¬reached.Faults ∧ reached.diverges = false
  ended_iff :
    after.state.phase = .ended ↔
      ∃ last, executed.getLast? = some last ∧ last.Halts ∧ last.diverges = false
  ended :
    after.state.phase = .ended →
      ∃ last, executed.getLast? = some last ∧ after.state.haltPc = last.hart.pc ∧
        after.state.haltValue = after.hart.get Reg.a0 ∧ after.hart.pc = after.state.haltPc + 4
  aborted :
    after.state.phase = .aborted →
      ∃ last, executed.getLast? = some last ∧ (last.Faults ∨ last.diverges = true) ∧
        after.state.haltPc = last.hart.pc ∧ after.state.haltValue = RunState.abortValue ∧
        (last.Faults → after.hart = last.hart)
  retired :
    after.stats.retired =
      before.stats.retired + UInt64.ofNat (executed.countP (fun reached => ¬reached.RefusesCall))
  refused_iff :
    ∀ trap, result = .error trap ↔
      ∃ last, executed.getLast? = some last ∧ last.RefusesCall ∧
        trap = .unsupportedTrap last.hart.pc (last.hart.get Reg.a7) last.hart.csrs.mtvec

/-- A run stops when its budget is spent, ends with a halt that the reference agrees to, and aborts
with an instruction that fails or leaves the reference disagreeing. -/
theorem run_concludes (unfinished : simulator.state.isFinished = false) (budget : UInt64) :
    Concludes simulator budget (simulator.cycles budget) (simulator.run budget).state
      (simulator.run budget).result := by
  have going := simulator.cycles_running budget
  have path := run_path unfinished budget
  have retired := run_retired unfinished budget
  obtain ⟨length, onward, phase, result⟩ | ⟨before, last, split, short, ending, left, trapped⟩ :=
    run_cases unfinished budget
  · have uneventful (reached : Simulator ρ) (member : reached ∈ simulator.cycles budget) :
        ¬reached.Halts ∧ ¬reached.Faults ∧ reached.diverges = false :=
      (next?_isSome_iff (going reached member)).mp (onward reached member)
    refine
      { path := path
        within_budget := Nat.le_of_eq length
        settled := .inl phase
        stopped_iff := ⟨fun _ => ⟨length, uneventful⟩, fun _ => phase⟩
        ended_iff := ?_
        ended := by simp [phase]
        aborted := by simp [phase]
        retired := retired
        refused_iff := ?_ }
    · rw [phase]
      refine ⟨nofun, ?_⟩
      rintro ⟨last, present, halts, _⟩
      exact absurd halts (uneventful last (List.mem_of_getLast? present)).1
    · intro trap
      rw [result]
      refine ⟨nofun, ?_⟩
      rintro ⟨last, present, refuses, _⟩
      exact absurd (faults_of_refusesCall refuses)
        (uneventful last (List.mem_of_getLast? present)).2.1
  · have member : last ∈ simulator.cycles budget := by simp [split]
    have present : (simulator.cycles budget).getLast? = some last := by simp [split]
    have within_budget : (simulator.cycles budget).length ≤ budget.toNat := by
      rw [split, List.length_append]
      exact short
    have unspent : ¬((simulator.cycles budget).length = budget.toNat ∧
        ∀ reached ∈ simulator.cycles budget,
          ¬reached.Halts ∧ ¬reached.Faults ∧ reached.diverges = false) := by
      rintro ⟨_, uneventful⟩
      have onward := (next?_isSome_iff (going last member)).mpr (uneventful last member)
      simp [ending] at onward
    have refused (trap : SimulatorError) : (simulator.run budget).result = .error trap ↔
        ∃ reached, (simulator.cycles budget).getLast? = some reached ∧ reached.RefusesCall ∧
          trap = .unsupportedTrap reached.hart.pc (reached.hart.get Reg.a7)
            reached.hart.csrs.mtvec := by
      rw [trapped, present, Guest.trap?_eq_some_iff]
      simp only [Option.some.injEq, exists_eq_left', RefusesCall, and_assoc]
      exact Iff.rfl
    rw [left] at path retired ⊢
    obtain ⟨halts, agreed, hart, state⟩ | ⟨failed, kept, state⟩ :=
      cycle_of_last (going last member) ending
    · have phase : (last.cycle false).simulator.state.phase = .ended := by rw [state]; rfl
      exact
        { path := path
          within_budget := within_budget
          settled := .inr (.inl phase)
          stopped_iff := iff_of_false (by simp [phase]) unspent
          ended_iff := iff_of_true phase ⟨last, present, halts, agreed⟩
          ended := fun _ =>
            ⟨last, present, by rw [state]; rfl, by rw [state, hart]; rfl, by rw [state, hart]; rfl⟩
          aborted := by simp [phase]
          retired := retired
          refused_iff := refused }
    · have phase : (last.cycle false).simulator.state.phase = .aborted := by rw [state]; rfl
      have unended : ¬∃ reached, (simulator.cycles budget).getLast? = some reached ∧
          reached.Halts ∧ reached.diverges = false := by
        rintro ⟨reached, same, halts, agreed⟩
        cases present.symm.trans same
        obtain faults | diverged := failed
        · exact not_faults_of_halts halts faults
        · exact absurd (agreed.symm.trans diverged) (by simp)
      exact
        { path := path
          within_budget := within_budget
          settled := .inr (.inr phase)
          stopped_iff := iff_of_false (by simp [phase]) unspent
          ended_iff := iff_of_false (by simp [phase]) unended
          ended := by simp [phase]
          aborted := fun _ =>
            ⟨last, present, failed, by rw [state]; rfl, by rw [state]; rfl, kept⟩
          retired := retired
          refused_iff := refused }

/-- A device access, a plain instruction and a halt, with budget to spare. -/
theorem sample_run_concludes :
    (sampleSimulator.cycles 9).length ≤ 9 ∧
      (sampleSimulator.run 9).state.stats.retired =
        UInt64.ofNat ((sampleSimulator.cycles 9).countP (fun reached => ¬reached.RefusesCall)) ∧
      ∃ last, (sampleSimulator.cycles 9).getLast? = some last ∧
        last.hart.pc = Hart.resetVector + 8 ∧
        (sampleSimulator.run 9).state.hart.pc = Hart.resetVector + 12 := by
  have unfinished : sampleSimulator.state.isFinished = false := rfl
  have concludes := run_concludes unfinished 9
  have halted : (sampleSimulator.run 9).state.state = .ended (Hart.resetVector + 8) 0 := by
    decide +kernel
  obtain ⟨last, present, place, _, onward⟩ := concludes.ended (by rw [halted]; rfl)
  rw [halted] at place onward
  exact ⟨concludes.within_budget, concludes.retired.trans (UInt64.zero_add _), last, present,
    place.symm, onward⟩

end Simulator

end HartScope
