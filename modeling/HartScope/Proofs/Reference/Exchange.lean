import HartScope.Proofs.Hart.Reachable
import HartScope.Proofs.Hart.Wired

/-!
The register exchange loses nothing.  A snapshot carries the cell of register zero as it is and a restore
clears it, so what is captured from a hart is what another hart captures after taking it over only because
that cell is zero in every state that a hart can come into.  The comparison of two captures names each
field in which the harts differ, and names it once.
-/

namespace HartScope

namespace Registers

theorem Wired.snapshot_eq_get {registers : Registers} (wired : registers.Wired) (r : Reg) :
    registers.snapshot.get r = registers.get r := by
  unfold get read
  split
  · rename_i first
    rw [show r = Reg.zero from Fin.ext first]
    exact wired
  · simp only [cellOf_val]
    rfl

end Registers

namespace Hart

open RegisterContext

variable {hart : Hart}

theorem Reachable.wired (reached : hart.Reachable) : hart.registers.Wired := by
  induction reached with
  | reset entry => exact Registers.wired_empty
  | step _ bus ih => exact step_wired ih bus
  | enterTrap _ cause ih => exact ih
  | apply _ context _ => exact Registers.wired_restore context.registers

/-- A hart can be sent to any address, since its own registers can be taken over with another program
counter. -/
theorem Reachable.jump (reached : hart.Reachable) (target : UInt64) :
    (hart.jump target).Reachable := by
  have sent : { ofHart hart with pc := target }.apply hart = hart.jump target := by
    simp only [RegisterContext.apply, ofHart, reached.wired.restore_snapshot]
    rfl
  rw [← sent]
  exact reached.apply _

end Hart

namespace RegisterContext

/-- What the exchange is about: a register, the program counter, or a CSR that traps touch. -/
inductive Field where
  | register (r : Reg)
  | pc
  | mcause
  | mstatus
  | mepc
  | mtvec
deriving DecidableEq, Repr

namespace Field

/-- The fields in the order in which disagreements are listed. -/
def all : List Field :=
  (List.finRange 32).map register ++ [pc, mcause, mstatus, mepc, mtvec]

def name : Field → String
  | register r => r.name
  | pc => "pc"
  | mcause => "mcause"
  | mstatus => "mstatus"
  | mepc => "mepc"
  | mtvec => "mtvec"

def value (context : RegisterContext) : Field → UInt64
  | register r => context.registers.get r
  | pc => context.pc
  | mcause => context.mcause
  | mstatus => context.mstatus
  | mepc => context.mepc
  | mtvec => context.mtvec

/-- What a hart holds in a field, register zero read as zero. -/
def held (hart : Hart) : Field → UInt64
  | register r => hart.get r
  | pc => hart.pc
  | mcause => hart.csrs.mcause
  | mstatus => hart.csrs.mstatus
  | mepc => hart.csrs.mepc
  | mtvec => hart.csrs.mtvec

theorem mem_all (field : Field) : field ∈ all := by
  cases field <;> simp [all]

theorem all_names_nodup : (all.map name).Nodup := by
  decide

theorem value_ofHart {hart : Hart} (wired : hart.registers.Wired) (field : Field) :
    field.value (ofHart hart) = field.held hart := by
  cases field with
  | register r => exact wired.snapshot_eq_get r
  | pc | mcause | mstatus | mepc | mtvec => rfl

end Field

theorem fields_eq (context : RegisterContext) :
    context.fields = Field.all.map fun field => (field.name, field.value context) := by
  simp only [fields, Field.all, List.map_append, List.map_map]
  rfl

/-- The comparison goes through the fields in order and keeps those that differ. -/
theorem mismatches_eq (reference actual : RegisterContext) :
    reference.mismatches actual =
      (Field.all.filter fun field => field.value reference ≠ field.value actual).map
        fun field => ⟨field.name, field.value reference, field.value actual⟩ := by
  rw [mismatches, fields_eq, fields_eq, List.zip_map', List.filterMap_map, ← List.filterMap_eq_map,
    List.filterMap_filter]
  refine List.filterMap_congr fun field _ => ?_
  by_cases same : field.value reference = field.value actual <;> simp [same]

theorem mem_mismatches {reference actual : RegisterContext} {mismatch : Mismatch} :
    mismatch ∈ reference.mismatches actual ↔
      ∃ field : Field, field.value reference ≠ field.value actual ∧
        mismatch = ⟨field.name, field.value reference, field.value actual⟩ := by
  rw [mismatches_eq, List.mem_map]
  constructor
  · rintro ⟨field, kept, rfl⟩
    exact ⟨field, of_decide_eq_true (List.mem_filter.mp kept).2, rfl⟩
  · rintro ⟨field, differ, rfl⟩
    exact ⟨field, List.mem_filter.mpr ⟨field.mem_all, decide_eq_true differ⟩, rfl⟩

theorem mismatches_names_nodup (reference actual : RegisterContext) :
    ((reference.mismatches actual).map Mismatch.name).Nodup := by
  have listed : ((reference.mismatches actual).map Mismatch.name).Sublist
      (Field.all.map Field.name) := by
    rw [mismatches_eq, List.map_map]
    exact List.filter_sublist.map Field.name
  exact listed.nodup Field.all_names_nodup

theorem ofHart_apply {hart : Hart} (wired : hart.registers.Wired) (other : Hart) :
    ofHart ((ofHart hart).apply other) = ofHart hart := by
  simp only [apply, ofHart, wired.restore_snapshot]

/-- In every state that a hart can come into, wherever it is sent, the cell of register zero is zero.
Hence what is captured from one such hart and taken over by another is captured from that again, while
the CSRs that are not exchanged stay, and comparing what is captured from the two lists exactly the
fields in which they differ, each once, and nothing if they agree on all. -/
theorem exchange_loses_nothing {hart other : Hart} (reached : hart.Reachable)
    (otherReached : other.Reachable) :
    let exchanged := (ofHart hart).apply other
    let found := (ofHart hart).mismatches (ofHart other)
    hart.registers.snapshot.get Reg.zero = 0 ∧ (∀ target, (hart.jump target).Reachable) ∧
    ofHart exchanged = ofHart hart ∧
    (∀ csr ∈ [Csr.misa, .mie, .mscratch, .mtval, .mip],
      exchanged.csrs.get csr = other.csrs.get csr) ∧
    (∀ mismatch, mismatch ∈ found ↔ ∃ field : Field, field.held hart ≠ field.held other ∧
      mismatch = ⟨field.name, field.held hart, field.held other⟩) ∧
    (found.map Mismatch.name).Nodup ∧
    (found = [] ↔ ∀ field : Field, field.held hart = field.held other) := by
  have listed (mismatch : Mismatch) :
      mismatch ∈ (ofHart hart).mismatches (ofHart other) ↔
        ∃ field : Field, field.held hart ≠ field.held other ∧
          mismatch = ⟨field.name, field.held hart, field.held other⟩ := by
    simp only [mem_mismatches, Field.value_ofHart reached.wired,
      Field.value_ofHart otherReached.wired]
  refine ⟨reached.wired, reached.jump, ofHart_apply reached.wired other, by simp [apply, Csrs.get],
    listed, mismatches_names_nodup _ _, fun none field => ?_, fun agree => ?_⟩
  · by_contra differ
    exact List.eq_nil_iff_forall_not_mem.mp none _ ((listed _).mpr ⟨field, differ, rfl⟩)
  · refine List.eq_nil_iff_forall_not_mem.mpr fun mismatch member => ?_
    obtain ⟨field, differ, _⟩ := (listed mismatch).mp member
    exact differ (agree field)

/-- Registers from outside, register zero among them. -/
def strayContext : RegisterContext where
  registers := Vector.replicate 32 9
  pc := 0x80000100
  mtvec := 0x80000200

/-- One hart has taken over registers and then fetched from where there is nothing; the other has entered
an interrupt. -/
theorem captured_after_fault_and_interrupt :
    let bus : Bus Peripheral := { ram := Memory.new 0 16 }
    let faulted := ((strayContext.apply (Hart.reset 0)).step bus).hart
    let interrupted := (Hart.reset 0x80000100).enterTrap 7
    faulted.Reachable ∧ interrupted.Reachable ∧ faulted.registers.snapshot.get Reg.zero = 0 ∧
      ofHart ((ofHart faulted).apply interrupted) = ofHart faulted ∧
      (⟨"a0", 9, 0⟩ : Mismatch) ∈ (ofHart faulted).mismatches (ofHart interrupted) ∧
      ¬(ofHart faulted).mismatches (ofHart interrupted) = [] := by
  intro bus faulted interrupted
  have faultedReached : faulted.Reachable := ((Hart.Reachable.reset 0).apply strayContext).step bus
  have interruptedReached : interrupted.Reachable := (Hart.Reachable.reset 0x80000100).enterTrap 7
  obtain ⟨wired, _, again, _, listed, _, agree⟩ :=
    exchange_loses_nothing faultedReached interruptedReached
  refine ⟨faultedReached, interruptedReached, wired, again, (listed _).mpr ?_, fun none => ?_⟩
  · exact ⟨.register Reg.a0, by decide +kernel, by decide +kernel⟩
  · exact absurd (agree.mp none .mtvec) (by decide +kernel)

end RegisterContext

end HartScope
