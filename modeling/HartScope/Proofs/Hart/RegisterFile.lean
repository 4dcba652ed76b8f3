import HartScope.Proofs.Hart.Wired

/-!
The register file under any sequence of writes and restores.  Each cell holds what was put there last,
and a write is seen through no index that designates another register.  An index is tested against
zero before it is taken modulo 32, so the cell of register zero is out of reach of an index below 32, but
not of a nonzero multiple of 32.
-/

namespace HartScope.Registers

/-- What is done to a register file: a write through an index, or all values taken over at once. -/
inductive Access where
  | write (index : Nat) (value : UInt64)
  | restore (values : Vector UInt64 32)
deriving DecidableEq, Repr

namespace Access

def apply (registers : Registers) : Access → Registers
  | write index value => registers.write index value
  | restore values => Registers.restore values

/-- The value that the access puts into the cell of a register. -/
def put? (r : Reg) : Access → Option UInt64
  | write index value => if index ≠ 0 ∧ cellOf index = r then some value else none
  | restore values => some (if r = Reg.zero then 0 else values.get r)

/-- A write through an index that is not zero, but designates register zero. -/
def Stray : Access → Prop
  | write index _ => index ≠ 0 ∧ index % 32 = 0
  | restore _ => False

end Access

def applyAll (registers : Registers) (accesses : List Access) : Registers :=
  accesses.foldl Access.apply registers

/-- The value that the accesses put last into the cell of a register, which was zero before. -/
def lastPut (accesses : List Access) (r : Reg) : UInt64 :=
  (accesses.reverse.findSome? (·.put? r)).getD 0

/-- Register zero reads as zero through every index that designates it, and in a snapshot. -/
def HardWired (registers : Registers) : Prop :=
  (∀ index, index % 32 = 0 → registers.read index = 0) ∧ registers.snapshot.get Reg.zero = 0

variable (registers : Registers)

theorem cellOf_eq_zero_iff (index : Nat) : cellOf index = Reg.zero ↔ index % 32 = 0 :=
  Fin.ext_iff

theorem read_eq (index : Nat) :
    registers.read index = if index = 0 then 0 else registers.cells.get (cellOf index) :=
  rfl

theorem cells_get_set (cells : Vector UInt64 32) {index : Nat} (bound : index < 32) (value : UInt64)
    (r : Reg) :
    (cells.set index value bound).get r = if index = r.val then value else cells.get r :=
  Vector.getElem_set ..

theorem write_cell (index : Nat) (value : UInt64) (r : Reg) :
    (registers.write index value).cells.get r =
      if index ≠ 0 ∧ cellOf index = r then value else registers.cells.get r := by
  unfold write
  by_cases first : index = 0
  · simp [first]
  · simp only [first, if_false, ne_eq, not_false_eq_true, true_and, cells_get_set, Fin.ext_iff]

theorem restore_cell (values : Vector UInt64 32) (r : Reg) :
    (restore values).cells.get r = if r = Reg.zero then 0 else values.get r := by
  rw [restore, cells_get_set]
  by_cases first : r = Reg.zero
  · subst first
    rfl
  · have apart : 0 ≠ r.val := fun same => first (Fin.ext same.symm)
    rw [if_neg apart, if_neg first]

-- One access: each cell takes what is put there, or keeps what it holds.
theorem apply_cell (access : Access) (r : Reg) :
    (access.apply registers).cells.get r = (access.put? r).getD (registers.cells.get r) := by
  cases access with
  | write index value =>
      rw [Access.apply, write_cell, Access.put?]
      split <;> rfl
  | restore values => exact restore_cell values r

theorem applyAll_cell (accesses : List Access) (r : Reg) :
    (registers.applyAll accesses).cells.get r =
      (accesses.reverse.findSome? (·.put? r)).getD (registers.cells.get r) := by
  induction accesses generalizing registers with
  | nil => rfl
  | cons access later ih =>
      change ((access.apply registers).applyAll later).cells.get r = _
      rw [ih, apply_cell, List.reverse_cons, List.findSome?_append]
      cases later.reverse.findSome? (·.put? r) with
      | some value => rfl
      | none => cases put : access.put? r <;> simp [put]

theorem applyAll_empty_cell (accesses : List Access) (r : Reg) :
    (applyAll {} accesses).cells.get r = lastPut accesses r := by
  rw [applyAll_cell, lastPut]
  exact congrArg _ (Vector.getElem_replicate _)

theorem hardWired_iff : registers.HardWired ↔ registers.cells.get Reg.zero = 0 := by
  refine ⟨fun hard => hard.2, fun wired => ⟨fun index designates => ?_, wired⟩⟩
  have cell : cellOf index = Reg.zero := (cellOf_eq_zero_iff index).mpr designates
  rw [read_eq, cell, wired, ite_self]

theorem lastPut_zero_of_not_stray {accesses : List Access}
    (straight : ∀ access ∈ accesses, ¬access.Stray) : lastPut accesses Reg.zero = 0 := by
  have kept : ∀ access ∈ accesses, ∀ value ∈ access.put? Reg.zero, value = 0 := by
    intro access member value put
    cases access with
    | write index written =>
        have elsewhere : ¬(index ≠ 0 ∧ cellOf index = Reg.zero) := by
          rw [cellOf_eq_zero_iff]
          exact straight _ member
        simp [Access.put?, elsewhere] at put
    | restore values => exact (Option.some.inj put).symm
  unfold lastPut
  cases found : accesses.reverse.findSome? (·.put? Reg.zero) with
  | none => rfl
  | some value =>
      obtain ⟨access, member, put⟩ := List.exists_of_findSome?_eq_some found
      exact kept access (List.mem_reverse.mp member) value put

theorem read_write_of_ne {index other : Nat} (value : UInt64) (apart : other % 32 ≠ index % 32) :
    (registers.write index value).read other = registers.read other := by
  have elsewhere : ¬(index ≠ 0 ∧ cellOf index = cellOf other) :=
    fun both => apart (Fin.ext_iff.mp both.2).symm
  rw [read_eq, read_eq, write_cell, if_neg elsewhere]

/-- Every cell of a register file holds what was put there last, as an index other than zero and a snapshot
show.  Register zero is hard-wired exactly if what was put last into its cell is zero, and so it is unless
some write goes through a nonzero multiple of 32.  A write through any index whatever changes what is
read of no other register than the one that it designates. -/
theorem file_holds_last_writes (history : List Access) :
    let file := applyAll {} history
    (∀ index, file.read index = if index = 0 then 0 else lastPut history (cellOf index)) ∧
    (∀ r : Reg, file.snapshot.get r = lastPut history r) ∧
    (file.HardWired ↔ lastPut history Reg.zero = 0) ∧
    ((∀ access ∈ history, ¬access.Stray) → file.HardWired) ∧
    ∀ index value other, other % 32 ≠ index % 32 →
      (file.write index value).read other = file.read other := by
  have wired : (applyAll {} history).HardWired ↔ lastPut history Reg.zero = 0 := by
    rw [hardWired_iff, ← applyAll_empty_cell]
  refine ⟨fun index => ?_, applyAll_empty_cell history, wired, fun straight => ?_,
    fun index value other apart => read_write_of_ne _ value apart⟩
  · rw [read_eq, applyAll_empty_cell]
  · exact wired.mpr (lastPut_zero_of_not_stray straight)

/-- Writes through indices above 31 that do not stray, and a restore that is to clear register zero. -/
def wideHistory : List Access :=
  [.restore (Vector.replicate 32 9), .write 0 5, .write 33 7, .write 63 8]

theorem wide_history_hard_wired :
    (∀ access ∈ wideHistory, ¬access.Stray) ∧ (applyAll {} wideHistory).HardWired ∧
      (applyAll {} wideHistory).read 1 = 7 ∧ (applyAll {} wideHistory).read 65 = 7 ∧
      ((applyAll {} wideHistory).write 97 4).read 31 = 8 := by
  have straight : ∀ access ∈ wideHistory, ¬access.Stray := by
    simp [wideHistory, Access.Stray]
  obtain ⟨reads, _, _, wired, frame⟩ := file_holds_last_writes wideHistory
  exact ⟨straight, wired straight, (reads 1).trans (by decide), (reads 65).trans (by decide),
    (frame 97 4 31 (by decide)).trans ((reads 31).trans (by decide))⟩

/-- A write through index 32 passes the test for zero and puts its value into the cell of register zero. -/
theorem write_through_32_unwires :
    ¬∀ history : List Access, (applyAll {} history).HardWired := by
  intro wired
  have zero := (wired [.write 32 7]).1 32 (by decide)
  have stored : (applyAll {} [.write 32 7]).read 32 = 7 := by decide
  rw [stored] at zero
  contradiction

end HartScope.Registers
