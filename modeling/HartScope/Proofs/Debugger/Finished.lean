import HartScope.Debugger.Session
import HartScope.Proofs.Reference.InStep

/-!
A finished program stays as it is.  Runs, commands and whole sessions leave everything that the
program has done in place, as long as nobody asks for a run after having left.  What is written is taken
to arrive.
-/

namespace HartScope

namespace Simulator

variable {ρ : Type}

/-- The program has not gone on between the two, and nothing that records it has changed. -/
structure Unmoved (before after : Simulator ρ) : Prop where
  hart : after.hart = before.hart
  bus : after.bus = before.bus
  ring : after.ring = before.ring
  tracer : after.tracer = before.tracer
  stats : after.stats = before.stats

theorem Unmoved.refl (simulator : Simulator ρ) : simulator.Unmoved simulator :=
  ⟨rfl, rfl, rfl, rfl, rfl⟩

theorem Unmoved.trans {first second third : Simulator ρ} (left : first.Unmoved second)
    (right : second.Unmoved third) : first.Unmoved third :=
  ⟨right.hart.trans left.hart, right.bus.trans left.bus, right.ring.trans left.ring,
    right.tracer.trans left.tracer, right.stats.trans left.stats⟩

end Simulator

/-- What a user of the simulator can ask for once a program has been loaded. -/
inductive Action where
  | run (budget : UInt64)
  | quit
  | command (line : String)
deriving DecidableEq, Repr

namespace Action

def request : Action → Request
  | run budget => .run budget
  | quit => .quit
  | command line => .ofLine line

def Runs (action : Action) : Prop :=
  action.request matches .run _

def Quits (action : Action) : Prop :=
  action.request = .quit

instance (action : Action) : Decidable action.Runs :=
  inferInstanceAs (Decidable (_ = true))

instance (action : Action) : Decidable action.Quits :=
  inferInstanceAs (Decidable (_ = _))

end Action

def Simulator.act {ρ : Type} [ReferenceModel ρ] (simulator : Simulator ρ) :
    Action → Simulator ρ
  | .run budget => (simulator.run budget).state
  | .quit => simulator.quit.state
  | .command line => (Debugger.execute simulator line).state

namespace Debugger

open Simulator

variable {ρ : Type} [ReferenceModel ρ] (simulator : Simulator ρ) {request : Request}

omit [ReferenceModel ρ] in
theorem withValue_frame {command : Command} {expr : String}
    {use : UInt64 → Reply (Simulator ρ) Flow}
    (framed : ∀ value, ∃ pool, (use value).state = { simulator with watchpoints := pool }) :
    ∃ pool, (withValue simulator command expr use).state =
      { simulator with watchpoints := pool } := by
  unfold withValue
  split
  · exact framed _
  · exact ⟨simulator.watchpoints, rfl⟩

/-- A request that neither runs the program nor leaves changes nothing but watchpoints. -/
theorem perform_frame (stays : ∀ budget, request ≠ .run budget) (remains : request ≠ .quit) :
    ∃ pool, (perform simulator request).state = { simulator with watchpoints := pool } := by
  cases request with
  | run budget => exact absurd rfl (stays budget)
  | quit => exact absurd rfl remains
  | nothing | unknown | misuse | listCommands | describe | registers | watchpoints =>
      exact ⟨simulator.watchpoints, rfl⟩
  | examine | print => exact withValue_frame simulator fun _ => ⟨simulator.watchpoints, rfl⟩
  | watch expr =>
      refine withValue_frame simulator fun value => ?_
      unfold watch
      split
      · exact ⟨simulator.watchpoints, rfl⟩
      · exact ⟨_, rfl⟩
  | delete id =>
      simp only [perform, delete]
      split
      · exact ⟨simulator.watchpoints, rfl⟩
      · exact ⟨_, rfl⟩

variable {simulator}

theorem perform_unmoved (stays : ∀ budget, request ≠ .run budget) :
    simulator.Unmoved (perform simulator request).state := by
  by_cases leaves : request = .quit
  · subst leaves
    exact ⟨rfl, rfl, rfl, rfl, rfl⟩
  · obtain ⟨pool, shape⟩ := perform_frame simulator stays leaves
    rw [shape]
    exact ⟨rfl, rfl, rfl, rfl, rfl⟩

theorem perform_of_finished (finished : simulator.state.isFinished = true)
    (remains : request ≠ .quit) :
    simulator.Unmoved (perform simulator request).state ∧
      (perform simulator request).state.state = simulator.state := by
  by_cases runs : ∃ budget, request = .run budget
  · obtain ⟨budget, rfl⟩ := runs
    have still : (perform simulator (.run budget)).state = simulator := by
      simp only [perform, run_of_finished finished]
      rfl
    rw [still]
    exact ⟨.refl _, rfl⟩
  · have stays : ∀ budget, request ≠ .run budget := fun budget same => runs ⟨budget, same⟩
    obtain ⟨pool, shape⟩ := perform_frame simulator stays remains
    exact ⟨perform_unmoved stays, by rw [shape]⟩

theorem answerLines_unmoved (finished : simulator.state.isFinished = true)
    (lines : List (List UInt8)) (output : Array Output) :
    simulator.Unmoved (answerLines simulator output lines).state := by
  induction lines generalizing simulator output with
  | nil => exact .refl _
  | cons line rest ih =>
      simp only [answerLines]
      split
      · exact .refl _
      · rename_i text _
        unfold execute
        by_cases leaves : Request.ofLine text = .quit
        -- The loop ends with this line, so no run comes after it.
        · rw [leaves]
          exact ⟨rfl, rfl, rfl, rfl, rfl⟩
        · obtain ⟨unmoved, state⟩ := perform_of_finished finished leaves
          split
          · exact unmoved
          · exact unmoved
          · exact unmoved.trans (ih (by rwa [state]) _)

theorem loop_unmoved (finished : simulator.state.isFinished = true) (input : List UInt8) :
    simulator.Unmoved (loop simulator input).state := by
  unfold loop
  split
  · rw [run_of_finished finished]
    exact .refl _
  · exact answerLines_unmoved finished _ _

end Debugger

namespace Simulator

open Debugger

variable {ρ : Type} [ReferenceModel ρ] {simulator : Simulator ρ}

theorem act_eq_perform (action : Action) :
    simulator.act action = (perform simulator action.request).state := by
  cases action <;> rfl

theorem foldl_act_of_no_runs {actions : List Action} (paused : ∀ action ∈ actions, ¬action.Runs) :
    simulator.Unmoved (actions.foldl act simulator) := by
  induction actions generalizing simulator with
  | nil => exact .refl _
  | cons action rest ih =>
      have first : simulator.Unmoved (simulator.act action) := by
        rw [act_eq_perform]
        refine perform_unmoved fun budget same => paused action List.mem_cons_self ?_
        simp [Action.Runs, same]
      exact first.trans (ih fun later member => paused later (List.mem_cons_of_mem _ member))

/-- A finished program is left as it is by every sequence of runs, departures and command lines in
which no run comes after a departure, and by every session of the command loop, which ends with the
departure. -/
theorem finished_program_unmoved (finished : simulator.state.isFinished = true) :
    (∀ actions : List Action,
      actions.Pairwise (fun earlier later => earlier.Quits → ¬later.Runs) →
        simulator.Unmoved (actions.foldl act simulator)) ∧
      ∀ input, simulator.Unmoved (Debugger.loop simulator input).state := by
  refine ⟨?_, loop_unmoved finished⟩
  intro actions ordered
  induction actions generalizing simulator with
  | nil => exact .refl _
  | cons action rest ih =>
      obtain ⟨before, later⟩ := List.pairwise_cons.mp ordered
      rw [List.foldl_cons, act_eq_perform]
      by_cases leaves : action.Quits
      · have departed : simulator.Unmoved (perform simulator action.request).state := by
          rw [show action.request = .quit from leaves]
          exact ⟨rfl, rfl, rfl, rfl, rfl⟩
        exact departed.trans (foldl_act_of_no_runs fun next member => before next member leaves)
      · obtain ⟨unmoved, state⟩ := perform_of_finished finished leaves
        exact unmoved.trans (ih (by rwa [state]) later)

/-- A halt, and an increment of `a0` behind it. -/
def haltThenStep : Simulator Interpreter :=
  { sampleSimulator with
    bus.ram := (sampleSimulator.bus.ram.load? Hart.resetVector
      ([0x00100073, 0x00150513].flatMap LittleEndian.wordBytes)).getD sampleSimulator.bus.ram
    reference := none }

theorem halted_program_unmoved :
    let halted := (haltThenStep.run 1).state
    let actions := [.run 1, .command "c", .quit, .command "info r", .command "q"]
    halted.state = .ended Hart.resetVector 0 ∧ halted.Unmoved (actions.foldl act halted) ∧
      halted.Unmoved (Debugger.loop halted "q\nc\n".toUTF8.toList).state := by
  intro halted actions
  have ended : halted.state = .ended Hart.resetVector 0 := by decide +kernel
  obtain ⟨unmoved, session⟩ :=
    finished_program_unmoved (show halted.state.isFinished = true by rw [ended]; rfl)
  exact ⟨ended, unmoved actions (by decide +kernel), session _⟩

/-- To leave lifts the guard: the next run executes the word behind the halt. -/
theorem run_after_quit_moves :
    ¬∀ (simulator : Simulator Interpreter) (actions : List Action),
      simulator.state.isFinished = true → simulator.Unmoved (actions.foldl act simulator) := by
  intro stays
  have unmoved := stays (haltThenStep.run 1).state [.quit, .run 1] (by decide +kernel)
  have before : (haltThenStep.run 1).state.hart.pc = Hart.resetVector + 4 := by decide +kernel
  have after : ([.quit, .run 1].foldl act (haltThenStep.run 1).state).hart.pc =
      Hart.resetVector + 8 := by decide +kernel
  rw [unmoved.hart, before] at after
  contradiction

end Simulator

end HartScope
