import HartScope.Device.Peripheral
import HartScope.Proofs.Hart.Interrupts

/-!
Trap entry and trap return, bit by bit.  Entry saves the enable bit and return restores it, so what lies
between them does not matter as long as it leaves the status register alone, and every bit that traps
do not use is the same before, between and after.
-/

namespace HartScope

namespace Csrs

theorem and_not_testBit (value mask : UInt64) (i : Nat) :
    (value &&& ~~~mask).toNat.testBit i = (value.toNat.testBit i && !mask.toNat.testBit i) := by
  rw [UInt64.toNat_and, UInt64.toNat_not, Nat.testBit_and]
  have top : UInt64.size - 1 - mask.toNat = 2 ^ 64 - (mask.toNat + 1) := by
    unfold UInt64.size
    omega
  rw [top, Nat.testBit_two_pow_sub_succ mask.toNat_lt]
  by_cases bound : i < 64
  · rw [decide_eq_true bound, Bool.true_and]
  · have small : value.toNat.testBit i = false := Nat.testBit_lt_two_pow
      (value.toNat_lt.trans_le (Nat.pow_le_pow_right (by decide) (Nat.not_lt.mp bound)))
    rw [small, Bool.false_and, Bool.false_and]

theorem mieBit_testBit (i : Nat) : mieBit.toNat.testBit i = decide (3 = i) :=
  Nat.testBit_two_pow (n := 3)

theorem mpieBit_testBit (i : Nat) : mpieBit.toNat.testBit i = decide (7 = i) :=
  Nat.testBit_two_pow (n := 7)

theorem mppBits_testBit (i : Nat) : mppBits.toNat.testBit i = decide (11 = i ∨ 12 = i) := by
  have union : mppBits.toNat = 2 ^ 11 ||| 2 ^ 12 := by decide
  rw [union, Nat.testBit_or, Nat.testBit_two_pow, Nat.testBit_two_pow, Bool.decide_or]

/-- A bit of the status register.  Bit 3 enables interrupts, bit 7 is the enable bit as entry saved it, and
bits 11 and 12 are the saved mode, both set for machine mode and both clear for user mode. -/
def status (csrs : Csrs) (bit : Nat) : Bool :=
  csrs.mstatus.toNat.testBit bit

def trapBits : List Nat := [3, 7, 11, 12]

theorem enterTrap_status (csrs : Csrs) (cause epc : UInt64) (bit : Nat) :
    (csrs.enterTrap cause epc).status bit =
      if bit = 3 then false else if bit = 7 then csrs.status 3
      else if bit = 11 ∨ bit = 12 then true else csrs.status bit := by
  have saved : (if csrs.interruptsEnabled = true then mpieBit else 0).toNat.testBit bit =
      (csrs.status 3 && decide (7 = bit)) := by
    rw [interruptsEnabled_eq, status]
    split <;> simp_all [mpieBit_testBit]
  -- For one bit it only remains to be decided which of the masks cover it.
  simp only [status, enterTrap, UInt64.toNat_or, Nat.testBit_or, and_not_testBit, saved,
    mieBit_testBit, mpieBit_testBit, mppBits_testBit]
  grind

theorem leaveTrap_status (csrs : Csrs) (bit : Nat) :
    csrs.leaveTrap.status bit =
      if bit = 3 then csrs.status 7 else if bit = 7 then true
      else if bit = 11 ∨ bit = 12 then false else csrs.status bit := by
  have kept : (csrs.mstatus &&& mpieBit != 0) = csrs.status 7 := and_bit_ne_zero _ (by decide)
  have restored : (if (csrs.mstatus &&& mpieBit != 0) = true then mieBit else 0).toNat.testBit bit =
      (csrs.status 7 && decide (3 = bit)) := by
    rw [kept]
    split <;> simp_all [mieBit_testBit]
  simp only [status, leaveTrap, UInt64.toNat_or, Nat.testBit_or, and_not_testBit, restored,
    mieBit_testBit, mpieBit_testBit, mppBits_testBit]
  grind

theorem not_mem_trapBits {bit : Nat} :
    bit ∉ trapBits ↔ bit ≠ 3 ∧ bit ≠ 7 ∧ ¬(bit = 11 ∨ bit = 12) := by
  simp [trapBits]

theorem enterTrap_status_unused (csrs : Csrs) (cause epc : UInt64) {bit : Nat}
    (unused : bit ∉ trapBits) : (csrs.enterTrap cause epc).status bit = csrs.status bit := by
  obtain ⟨enable, saved, mode⟩ := not_mem_trapBits.mp unused
  rw [enterTrap_status, if_neg enable, if_neg saved, if_neg mode]

theorem leaveTrap_status_unused (csrs : Csrs) {bit : Nat} (unused : bit ∉ trapBits) :
    csrs.leaveTrap.status bit = csrs.status bit := by
  obtain ⟨enable, saved, mode⟩ := not_mem_trapBits.mp unused
  rw [leaveTrap_status, if_neg enable, if_neg saved, if_neg mode]

/-- What happens to the registers: a write to an address, or a trap entered or left. -/
inductive Event where
  | write (address : Nat) (value : UInt64)
  | enter (cause epc : UInt64)
  | leave
deriving DecidableEq, Repr

namespace Event

/-- The registers after an event; a write to an address where no register stands changes none. -/
def apply (csrs : Csrs) : Event → Csrs
  | write address value => (csrs.write? address value).getD csrs
  | enter cause epc => csrs.enterTrap cause epc
  | leave => csrs.leaveTrap

/-- The event is a write, and not to one of these registers. -/
def WritesOutside (registers : List Csr) : Event → Prop
  | write address _ => ∀ csr ∈ registers, csr.address ≠ address
  | enter _ _ | leave => False

def WritesStatus : Event → Prop
  | write address _ => address = Csr.mstatus.address
  | enter _ _ => False
  | leave => True

theorem apply_write_get (csrs : Csrs) (csr : Csr) {address : Nat}
    (outside : csr.address ≠ address) (value : UInt64) :
    (apply csrs (write address value)).get csr = csrs.get csr := by
  rw [apply, write?_eq]
  cases found : Csr.ofAddress? address with
  | none => rfl
  | some other =>
      have apart : csr ≠ other := by
        rintro rfl
        exact outside (Csr.address_of_ofAddress? found)
      exact csrs.get_set_ne apart value

theorem apply_get {registers : List Csr} {event : Event} (outside : event.WritesOutside registers)
    (csrs : Csrs) (csr : Csr) (member : csr ∈ registers) :
    (event.apply csrs).get csr = csrs.get csr := by
  cases event with
  | write address value => exact apply_write_get csrs csr (outside csr member) value
  | enter | leave => exact outside.elim

end Event

def applyAll (csrs : Csrs) (events : List Event) : Csrs :=
  events.foldl Event.apply csrs

theorem applyAll_get {registers : List Csr} {events : List Event}
    (outside : ∀ event ∈ events, event.WritesOutside registers) (csrs : Csrs) (csr : Csr)
    (member : csr ∈ registers) : (csrs.applyAll events).get csr = csrs.get csr := by
  induction events generalizing csrs with
  | nil => rfl
  | cons event later ih =>
      rw [List.forall_mem_cons] at outside
      exact (ih outside.2 (event.apply csrs)).trans (Event.apply_get outside.1 csrs csr member)

/-- Interrupts are disabled, and the saved mode is machine mode. -/
structure Masked (csrs : Csrs) : Prop where
  disabled : csrs.status 3 = false
  machine : csrs.status 11 = true ∧ csrs.status 12 = true

theorem masked_enterTrap (csrs : Csrs) (cause epc : UInt64) : (csrs.enterTrap cause epc).Masked := by
  refine ⟨?_, ?_, ?_⟩ <;> rw [enterTrap_status] <;> rfl

namespace Masked

variable {csrs : Csrs}

theorem apply (masked : csrs.Masked) {event : Event} (spared : ¬event.WritesStatus) :
    (event.apply csrs).Masked := by
  cases event with
  | write address value =>
      have kept : (Event.apply csrs (.write address value)).mstatus = csrs.mstatus :=
        Event.apply_write_get csrs .mstatus (Ne.symm spared) value
      have same (bit : Nat) : (Event.apply csrs (.write address value)).status bit = csrs.status bit :=
        congrArg (·.toNat.testBit bit) kept
      exact ⟨(same 3).trans masked.disabled, (same 11).trans masked.machine.1,
        (same 12).trans masked.machine.2⟩
  | enter cause epc => exact csrs.masked_enterTrap cause epc
  | leave => exact (spared trivial).elim

theorem applyAll (masked : csrs.Masked) {events : List Event}
    (spared : ∀ event ∈ events, ¬event.WritesStatus) : (csrs.applyAll events).Masked := by
  induction events generalizing csrs with
  | nil => exact masked
  | cons event later ih =>
      rw [List.forall_mem_cons] at spared
      exact ih (masked.apply spared.1) spared.2

/-- Nothing is reported, whatever is pending and enabled. -/
theorem pendingInterrupt?_eq_none (masked : csrs.Masked) (mip mie : UInt64) :
    ({ csrs with mip := mip, mie := mie } : Csrs).pendingInterrupt? = none := by
  have disabled : ({ csrs with mip := mip, mie := mie } : Csrs).interruptsEnabled = false :=
    (interruptsEnabled_eq _).trans masked.disabled
  rw [pendingInterrupt?, disabled]
  rfl

end Masked

/-- Entry into a trap and return from it undo each other.  Whatever a handler writes to registers other
than the status register and the saved address, the return continues at the address that entry saved and
the enable bit is as it was before; the saved one is set, the saved mode is user mode, and no bit that
traps do not use changes at any time.  From entry on, until a return or a write to the status register,
no interrupt is reported, whatever is pending and enabled. -/
theorem trap_return_undoes_entry {δ : Type} [Device δ] (csrs : Csrs) (cause epc : UInt64) :
    (∀ handler : List Event, (∀ event ∈ handler, event.WritesOutside [.mstatus, .mepc]) →
      let handled := (csrs.enterTrap cause epc).applyAll handler
      (∀ (hart : Hart) (bus : Bus δ), hart.csrs = handled →
        hart.execute bus .mret =
          ⟨.ok .next, { hart with pc := epc, csrs := handled.leaveTrap }, bus, []⟩) ∧
      handled.leaveTrap.status 3 = csrs.status 3 ∧ handled.leaveTrap.status 7 = true ∧
      handled.leaveTrap.status 11 = false ∧ handled.leaveTrap.status 12 = false ∧
      ∀ bit ∉ trapBits, handled.status bit = csrs.status bit ∧
        handled.leaveTrap.status bit = csrs.status bit) ∧
    ∀ events : List Event, (∀ event ∈ events, ¬event.WritesStatus) →
      let masked := (csrs.enterTrap cause epc).applyAll events
      masked.Masked ∧
        ∀ mip mie, ({ masked with mip := mip, mie := mie } : Csrs).pendingInterrupt? = none := by
  refine ⟨fun handler outside => ?_, fun events spared => ?_⟩
  · have status (bit : Nat) :
        ((csrs.enterTrap cause epc).applyAll handler).status bit =
          (csrs.enterTrap cause epc).status bit :=
      congrArg (·.toNat.testBit bit)
        (applyAll_get outside (csrs.enterTrap cause epc) .mstatus (by decide))
    have address : ((csrs.enterTrap cause epc).applyAll handler).mepc = epc :=
      applyAll_get outside (csrs.enterTrap cause epc) .mepc (by decide)
    have kept (bit : Nat) (unused : bit ∉ trapBits) :
        ((csrs.enterTrap cause epc).applyAll handler).status bit = csrs.status bit :=
      (status bit).trans (csrs.enterTrap_status_unused cause epc unused)
    refine ⟨fun hart bus same => ?_, ?_, ?_, ?_, ?_, fun bit unused => ⟨kept bit unused, ?_⟩⟩
    · rw [Hart.execute, same, address]
    · rw [leaveTrap_status, if_pos rfl, status, enterTrap_status]
      rfl
    · rw [leaveTrap_status]
      rfl
    · rw [leaveTrap_status]
      rfl
    · rw [leaveTrap_status]
      rfl
    · exact (leaveTrap_status_unused _ unused).trans (kept bit unused)
  · have masked := (csrs.masked_enterTrap cause epc).applyAll spared
    exact ⟨masked, masked.pendingInterrupt?_eq_none⟩

/-- A handler that makes an interrupt pending, enables it, and writes where no register stands. -/
def raisingHandler : List Event :=
  [.write 0x340 0x55, .write 0x344 0x80, .write 0x304 0x80, .write 0x180 1]

def raisingHandled : Csrs :=
  (enterTrap { mstatus := 0xA00001808 } 11 0x80000010).applyAll raisingHandler

/-- The interrupt is held back while the handler runs and reported when it returns. -/
theorem raising_handler_returns :
    (∀ event ∈ raisingHandler, event.WritesOutside [.mstatus, .mepc]) ∧
      (∀ event ∈ raisingHandler, ¬event.WritesStatus) ∧
      (Hart.execute { pc := 0x80000100, csrs := raisingHandled }
        ({ ram := Memory.new 0x80000000 64 } : Bus Peripheral) .mret).hart.pc = 0x80000010 ∧
      raisingHandled.leaveTrap.status 3 = true ∧ raisingHandled.Masked ∧
      raisingHandled.pendingInterrupt? = none ∧
      raisingHandled.leaveTrap.pendingInterrupt? = some 0x8000000000000007 := by
  have outside : ∀ event ∈ raisingHandler, event.WritesOutside [.mstatus, .mepc] := by
    simp [raisingHandler, Event.WritesOutside, Csr.address]
  have spared : ∀ event ∈ raisingHandler, ¬event.WritesStatus := by
    simp [raisingHandler, Event.WritesStatus, Csr.address]
  have undone := @trap_return_undoes_entry Peripheral _ { mstatus := 0xA00001808 } 11 0x80000010
  obtain ⟨returned, enabled, _⟩ := undone.1 raisingHandler outside
  obtain ⟨masked, quiet⟩ := undone.2 raisingHandler spared
  refine ⟨outside, spared, ?_, enabled, masked, quiet 0x80 0x80, by decide⟩
  exact congrArg (fun done => done.hart.pc)
    (returned { pc := 0x80000100, csrs := raisingHandled } { ram := Memory.new 0x80000000 64 } rfl)

end Csrs

end HartScope
