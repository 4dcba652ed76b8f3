import HartScope.Proofs.Debugger.Finished
import HartScope.Proofs.Hart.Reachable
import HartScope.Proofs.Reference.Attachment
import HartScope.Proofs.Reference.Calls

/-!
The simulators that come out of any use.  Their harts are in states that a hart can come into, so
what every access to a CSR and every trap leaves alone is as it was after the reset.
-/

namespace HartScope.Simulator

variable {ρ : Type} [ReferenceModel ρ]

/-- The simulators that come out of creation, loading, requests and the cycles of runs.  Meanwhile
the devices may change on their own. -/
inductive Reachable : Simulator ρ → Prop where
  | new {config : Config} {created : Simulator ρ} (creation : new config = .ok created) :
      Reachable created
  | load {simulator : Simulator ρ} (reached : Reachable simulator) (reader : Elf.Reader)
      (bytes : Array UInt8) : Reachable (simulator.load reader bytes).state
  | setSymbols {simulator : Simulator ρ} (reached : Reachable simulator) (symbols : SymbolTable) :
      Reachable (simulator.setSymbols symbols)
  | attach {simulator attached : Simulator ρ} (reached : Reachable simulator) {model : ρ}
      (attachment : simulator.attach model = .ok attached) : Reachable attached
  | setDevices {simulator : Simulator ρ} (reached : Reachable simulator)
      (devices : List Peripheral) :
      Reachable { simulator with bus := { simulator.bus with devices := devices } }
  | act {simulator : Simulator ρ} (reached : Reachable simulator) (action : Action) :
      Reachable (simulator.act action)
  | cycle {simulator following : Simulator ρ} (reached : Reachable simulator) {budget : UInt64}
      (visited : following ∈ simulator.cycles budget) : Reachable following

theorem cycle_reaches {simulator : Simulator ρ} (reached : simulator.hart.Reachable) :
    (simulator.cycle false).simulator.hart.Reachable := by
  have stepped := reached.step simulator.bus
  rw [cycle_hart]
  cases simulator.interrupt? with
  | none => exact stepped
  | some cause => exact stepped.enterTrap cause

theorem act_reaches {simulator : Simulator ρ} (reached : simulator.hart.Reachable)
    (action : Action) : (simulator.act action).hart.Reachable := by
  rw [act_eq_perform]
  by_cases runs : ∃ budget, action.request = .run budget
  · obtain ⟨budget, request⟩ := runs
    rw [request]
    exact run_induction (fun after => after.hart.Reachable) (fun _ _ holds => holds)
      (fun _ holds => cycle_reaches holds) reached budget
  · have unmoved : simulator.Unmoved (Debugger.perform simulator action.request).state :=
      Debugger.perform_unmoved fun budget same => runs ⟨budget, same⟩
    rwa [unmoved.hart]

theorem Reachable.hart {simulator : Simulator ρ} (reached : simulator.Reachable) :
    simulator.hart.Reachable := by
  induction reached with
  | new creation =>
      simp only [Simulator.new] at creation
      split at creation
      · cases creation
      · cases creation
        exact .reset _
  | load reached reader bytes ih =>
      simp only [Simulator.load]
      split
      · exact ih
      · exact .reset _
  | setSymbols reached symbols ih => exact ih
  | attach reached attachment ih =>
      simp only [Simulator.attach] at attachment
      split at attachment
      · cases attachment
      · cases attachment
        exact ih
  | setDevices reached devices ih => exact ih
  | act reached action ih => exact act_reaches ih action
  | cycle reached visited ih =>
      refine cycles_induction (fun following => following.hart.Reachable) ?_ ih _ visited
      intro before after holds continued
      rw [← (next?_some continued).1]
      exact cycle_reaches holds

/-- An access to an implemented CSR exchanges it with a register, and one to any other address is
invalid and changes nothing.  An address can be read just if it can be written and just if it has a
name.  The two read-only registers are as after the reset in every state of a hart, and so in every
state of a simulator, during runs and between them. -/
theorem csr_accesses_exchange :
    (∀ {δ : Type} [Device δ] (hart : Hart) (bus : Bus δ) (word : UInt32),
      hart.fetched? bus = some word → CsrAccess word →
        (∀ csr : Csr, csr.address = Word.csr word →
          (hart.step bus).result = .ok .next ∧
            (hart.step bus).bus = (bus.read hart.pc .word .fetch).bus ∧
            hart.CsrExchange (hart.step bus).hart word csr) ∧
        ((∀ csr : Csr, csr.address ≠ Word.csr word) →
          (hart.step bus).result = .error (.invalidInstruction hart.pc word) ∧
            (hart.step bus).hart = hart ∧
            (hart.step bus).bus = (bus.read hart.pc .word .fetch).bus)) ∧
      (∀ (csrs : Csrs) (address : Nat) (value : UInt64),
        ((csrs.read? address).isSome ↔ (csrs.write? address value).isSome) ∧
          ((csrs.read? address).isSome ↔ ((Csr.ofAddress? address).map Csr.name).isSome)) ∧
      (∀ hart : Hart, hart.Reachable →
        hart.csrs.get .misa = 0x8000000000001100 ∧ hart.csrs.get .mhartid = 0) ∧
      ∀ simulator : Simulator ρ, simulator.Reachable → simulator.hart.Reachable := by
  refine ⟨?_, ?_, ?_, fun simulator reached => reached.hart⟩
  · intro δ _ hart bus word fetched access
    exact ⟨fun csr implemented => Hart.step_of_csrAccess fetched access implemented,
      Hart.step_of_unimplemented fetched access⟩
  · intro csrs address value
    rw [csrs.read?_isSome_iff, csrs.write?_isSome_iff, Option.isSome_map,
      Csr.ofAddress?_isSome_iff]
    exact ⟨Iff.rfl, Iff.rfl⟩
  · intro hart reached
    exact ⟨reached.readOnly (.inl rfl), reached.readOnly (.inr rfl)⟩

/-- A hart that sets the bits of `a0` in a scratch register that it reads into `a0`. -/
def settingHart : Hart where
  registers := ({} : Registers).set Reg.a0 0xF0
  pc := Hart.resetVector
  csrs := { mscratch := 0x3C }

/-- The word of `csrrs a0, mscratch, a0`. -/
def settingWord : UInt32 := 0x34052573

theorem setting_through_one_register :
    let after := (settingHart.step (Hart.wordBus settingWord)).hart
    after.get Reg.a0 = 0x3C ∧ after.csrs.get .mscratch = 0xFC ∧ after.csrs.get .mtvec = 0 ∧
      ((smallBoard.act (.run 3)).hart.csrs.get .misa = 0x8000000000001100) := by
  intro after
  obtain ⟨access, _, fixed, reaches⟩ := @csr_accesses_exchange Interpreter _
  have fetched : settingHart.fetched? (Hart.wordBus settingWord) = some settingWord := by
    decide +kernel
  obtain ⟨_, _, exchange⟩ :=
    (access settingHart _ settingWord fetched (by decide)).1 .mscratch (by decide)
  have created : smallBoard.Reachable := .new smallBoard_created
  exact ⟨exchange.received (by decide), exchange.stored (by simp [Csrs.ReadOnly]),
    exchange.others .mtvec (by decide), (fixed _ (reaches _ (created.act (.run 3)))).1⟩

end HartScope.Simulator
