import HartScope.Proofs.Memory.Stores
import Mathlib.Algebra.BigOperators.Ring.Finset

/-!
Operations on memory act on one map from addresses to bytes.  They are granted on the same condition,
a refused one changes nothing, and after any of them each byte is the one that was put there last.
-/

namespace HartScope

theorem LittleEndian.toNat_eq_sum (bytes : List UInt8) :
    toNat bytes = ∑ i ∈ Finset.range bytes.length, (bytes[i]?.getD 0).toNat * 256 ^ i := by
  induction bytes with
  | nil => rfl
  | cons byte rest ih =>
      rw [toNat, ih, List.length_cons, Finset.sum_range_succ', Finset.mul_sum, Nat.add_comm]
      refine congrArg₂ (· + ·) (Finset.sum_congr rfl fun i _ => ?_) (Nat.mul_one _).symm
      rw [List.getElem?_cons_succ, Nat.pow_succ', Nat.mul_left_comm]

namespace Memory

inductive Operation where
  | contains (address : UInt64) (length : Nat)
  | read (address : UInt64) (width : Width)
  | write (address : UInt64) (width : Width) (value : UInt64)
  | load (address : UInt64) (bytes : List UInt8)
  | fillZero (address : UInt64) (length : Nat)
  | slice (address : UInt64) (length : Nat)
deriving DecidableEq, Repr

inductive Answer where
  | done
  | number (value : Nat)
  | bytes (bytes : List UInt8)
deriving DecidableEq, Repr

namespace Operation

def address : Operation → UInt64
  | contains address _ | read address _ | write address _ _ | load address _ | fillZero address _
  | slice address _ => address

/-- How many bytes the operation is about. -/
def length : Operation → Nat
  | read _ width | write _ width _ => width.bytes
  | load _ bytes => bytes.length
  | contains _ length | fillZero _ length | slice _ length => length

/-- What memory answers to the operation, and memory afterwards, if it grants the operation. -/
def grant? (ram : Memory) : Operation → Option (Answer × Memory)
  | contains address length => if ram.contains address length then some (.done, ram) else none
  | read address width =>
      (ram.read? address width).map fun value => (.number value.toNat, ram)
  | write address width value => (ram.write? address width value).map fun after => (.done, after)
  | load address bytes => (ram.load? address bytes).map fun after => (.done, after)
  | fillZero address length => (ram.fillZero? address length).map fun after => (.done, after)
  | slice address length => (ram.slice? address length).map fun bytes => (.bytes bytes, ram)

/-- Memory after the operation, be it granted or not. -/
def leaves (ram : Memory) (operation : Operation) : Memory :=
  match operation.grant? ram with
  | some (_, after) => after
  | none => ram

/-- The bytes lie between the ends of memory, in numbers that do not wrap. -/
def Fits (operation : Operation) (base size : UInt64) : Prop :=
  base.toNat ≤ operation.address.toNat ∧
    operation.address.toNat - base.toNat + operation.length ≤ size.toNat

instance (operation : Operation) (base size : UInt64) : Decidable (operation.Fits base size) :=
  inferInstanceAs (Decidable (_ ∧ _))

/-- The byte that the operation puts at a place counted from its address. -/
def put? : Operation → Nat → Option UInt8
  | write _ _ value, i => some (UInt8.ofNat (value.toNat >>> (8 * i)))
  | load _ bytes, i => bytes[i]?
  | fillZero _ _, _ => some 0
  | contains _ _, _ | read _ _, _ | slice _ _, _ => none

def changes : Operation → Bool
  | write _ _ _ | load _ _ | fillZero _ _ => true
  | contains _ _ | read _ _ | slice _ _ => false

/-- The byte that the operation puts at an address. -/
def byteAt? (operation : Operation) (position : Nat) : Option UInt8 :=
  if operation.address.toNat ≤ position ∧
      position < operation.address.toNat + operation.length then
    operation.put? (position - operation.address.toNat)
  else none

/-- The answer that the bytes at the addresses give. -/
def answer (content : Nat → Option UInt8) : Operation → Answer
  | read address width =>
      .number (∑ i ∈ Finset.range width.bytes,
        ((content (address.toNat + i)).getD 0).toNat * 256 ^ i)
  | slice address length =>
      .bytes ((List.range length).map fun i => (content (address.toNat + i)).getD 0)
  | contains _ _ | write _ _ _ | load _ _ | fillZero _ _ => .done

/-- An operation that changes memory puts a byte at each address of its range, and at no other. -/
theorem byteAt?_isSome_iff (operation : Operation) (position : Nat) :
    (operation.byteAt? position).isSome = true ↔ operation.changes = true ∧
      operation.address.toNat ≤ position ∧
        position < operation.address.toNat + operation.length := by
  unfold byteAt?
  split
  · cases operation <;> simp_all [put?, changes, Operation.length, Operation.address]
    omega
  · simp_all

/-- The byte that was last put at an address by the operations that were granted, the latest
operation being the last of the list. -/
def lastAt? (base size : UInt64) (operations : List Operation) (position : Nat) : Option UInt8 :=
  (operations.filter (·.Fits base size)).reverse.findSome? (·.byteAt? position)

theorem lastAt?_cons (base size : UInt64) (operation : Operation) (later : List Operation)
    (position : Nat) :
    lastAt? base size (operation :: later) position =
      (lastAt? base size later position).or
        (if operation.Fits base size then operation.byteAt? position else none) := by
  unfold lastAt?
  by_cases fits : operation.Fits base size
  · simp [fits, List.findSome?_append]
  · simp [fits]

end Operation

variable {ram : Memory} {operation : Operation}

/-- The offsets at which a range starts and stops, as words: there are none if the difference of
address and base or its sum with the length does not fit a word, or if the sum lies above the size. -/
def wordRange? (ram : Memory) (address length : UInt64) : Option (UInt64 × UInt64) :=
  let start := address - ram.base
  let stop := start + length
  if address < ram.base ∨ stop < length ∨ ram.size < stop then none else some (start, stop)

theorem wordRange?_toNat (ram : Memory) (address length : UInt64) :
    (ram.wordRange? address length).map (Prod.map UInt64.toNat UInt64.toNat) =
      (ram.offset? address length.toNat).map fun offset => (offset, offset + length.toNat) := by
  have size := ram.size.toNat_lt
  have count := length.toNat_lt
  have place := address.toNat_lt
  unfold wordRange? offset?
  by_cases below : address < ram.base
  · rw [if_pos (.inl below), if_neg fun inside => UInt64.not_lt.mpr inside.1 below]
    rfl
  · have lower : ram.base ≤ address := UInt64.not_lt.mp below
    have difference : (address - ram.base).toNat = address.toNat - ram.base.toNat :=
      UInt64.toNat_sub_of_le _ _ lower
    have sum := UInt64.toNat_add (address - ram.base) length
    rw [difference] at sum
    -- A sum of words has wrapped exactly if it is less than one of them.
    simp only [below, lower, false_or, true_and, UInt64.lt_iff_toNat_lt, sum]
    by_cases fits : address.toNat - ram.base.toNat + length.toNat ≤ ram.size.toNat
    · rw [if_neg (by omega), if_pos fits, Option.map_some, Option.map_some, Prod.map, sum,
        difference, Nat.mod_eq_of_lt (by omega)]
    · rw [if_pos (by omega), if_neg fits]
      rfl

theorem fits_iff_holds :
    operation.Fits ram.base ram.size ↔ ram.Holds operation.address operation.length := by
  unfold Operation.Fits Holds
  omega

theorem slice?_of_holds {address : UInt64} {length : Nat} (inside : ram.Holds address length) :
    ram.slice? address length =
      some ((List.range length).map fun i => (ram.at? (address.toNat + i)).getD 0) := by
  obtain ⟨offset, found⟩ := Option.isSome_iff_exists.mp ((offset?_isSome_iff ..).mpr inside)
  obtain ⟨lower, upper⟩ := inside
  obtain ⟨_, place, _⟩ := offset?_bound found
  rw [slice?, found, Option.map_some, Cells.slice]
  refine congrArg some (List.map_congr_left fun i member => ?_)
  have bound := List.mem_range.mp member
  have index : address.toNat + i - ram.base.toNat = offset + i := by omega
  rw [at?, if_pos (by omega), index]
  rfl

/-- A read gives the little-endian number of the bytes at the addresses. -/
theorem read?_of_holds_toNat {address : UInt64} {width : Width}
    (inside : ram.Holds address width.bytes) :
    ∃ value, ram.read? address width = some value ∧
      value.toNat = ∑ i ∈ Finset.range width.bytes,
        ((ram.at? (address.toNat + i)).getD 0).toNat * 256 ^ i := by
  obtain ⟨bytes, count, spelled, found⟩ := read?_of_holds inside
  have small : LittleEndian.toNat bytes < 2 ^ 64 := by
    refine (LittleEndian.toNat_lt bytes).trans_le ?_
    rw [count, Nat.one_shiftLeft]
    exact Nat.pow_le_pow_right (by decide) (Nat.mul_le_mul_left 8 width.bytes_le)
  refine ⟨_, found, ?_⟩
  rw [UInt64.toNat_ofNat_of_lt' small, LittleEndian.toNat_eq_sum, count]
  refine Finset.sum_congr rfl fun i member => ?_
  rw [spelled i (by rw [count]; exact Finset.mem_range.mp member)]

/-- A byte is read as it stands. -/
theorem read?_byte (ram : Memory) (address : UInt64) :
    ram.read? address .byte = (ram.at? address.toNat).map UInt8.toUInt64 := by
  have inside : ram.Holds address 1 ↔ (ram.at? address.toNat).isSome = true := by
    rw [at?_isSome_iff]
    unfold Holds
    omega
  cases found : ram.at? address.toNat with
  | none =>
      rw [found] at inside
      have refused := mt ((read?_isSome_iff ram address .byte).trans inside).mp nofun
      simpa using refused
  | some byte =>
      have held : ram.Holds address (Width.bytes .byte) := inside.mpr (by rw [found]; rfl)
      obtain ⟨value, read, number⟩ := read?_of_holds_toNat held
      rw [read, Option.map_some, Option.some.injEq, ← UInt64.toNat_inj, number]
      simp [Width.bytes, found]

theorem at?_of_patched {after : Memory} (patched : Patched operation.byteAt? ram after)
    (fits : operation.Fits ram.base ram.size) (position : Nat) :
    after.at? position = (operation.byteAt? position).or (ram.at? position) := by
  refine at?_patched patched (fun position covered => ?_) position
  rw [Operation.byteAt?_isSome_iff] at covered
  rw [at?_isSome_iff]
  unfold Operation.Fits at fits
  omega

namespace Operation

/-- Every operation is granted on the same condition. -/
theorem grant?_isSome (ram : Memory) (operation : Operation) :
    (operation.grant? ram).isSome = true ↔ operation.Fits ram.base ram.size := by
  rw [fits_iff_holds, ← offset?_isSome_iff]
  cases operation with
  | contains address length =>
      rw [grant?, Memory.contains]
      split <;> simp_all [Operation.address, Operation.length]
  | read | write | load | fillZero | slice =>
      simp [grant?, read?, write?, load?, fillZero?, slice?, Operation.address, Operation.length]

theorem refused_of_not_fits (misfit : ¬operation.Fits ram.base ram.size) :
    operation.grant? ram = none := by
  rw [← grant?_isSome] at misfit
  exact Option.not_isSome_iff_eq_none.mp misfit

theorem leaves_of_refused (refused : operation.grant? ram = none) : operation.leaves ram = ram := by
  rw [leaves, refused]

/-- What an operation does that is granted by memory of the size from the base on: it answers what the
bytes say, keeps the place of memory, and puts its bytes into its range. -/
structure Granted (operation : Operation) (base size : UInt64) (content : Nat → Option UInt8)
    (given : Answer) (after : Memory) : Prop where
  answer : given = operation.answer content
  base : after.base = base
  size : after.size = size
  byte : ∀ position, after.at? position = (operation.byteAt? position).or (content position)

theorem Granted.of_patched {after : Memory} (fits : operation.Fits ram.base ram.size)
    (done : operation.answer ram.at? = .done) (patched : Patched operation.byteAt? ram after) :
    Granted operation ram.base ram.size ram.at? .done after :=
  ⟨done.symm, patched.base, patched.size, at?_of_patched patched fits⟩

theorem Granted.of_kept {given : Answer} (right : given = operation.answer ram.at?)
    (kept : operation.changes = false) :
    Granted operation ram.base ram.size ram.at? given ram := by
  refine ⟨right, rfl, rfl, fun position => ?_⟩
  have untouched := mt (byteAt?_isSome_iff operation position).mp (by simp [kept])
  rw [Option.not_isSome_iff_eq_none.mp untouched, Option.none_or]

theorem granted_of_fits (fits : operation.Fits ram.base ram.size) :
    ∃ given after, operation.grant? ram = some (given, after) ∧
      Granted operation ram.base ram.size ram.at? given after := by
  have granted := (grant?_isSome ram operation).mpr fits
  have inside := fits_iff_holds.mp fits
  obtain ⟨⟨given, after⟩, found⟩ := Option.isSome_iff_exists.mp granted
  refine ⟨given, after, found, ?_⟩
  cases operation with
  | contains address length =>
      rw [grant?] at found
      split at found
      · cases found
        exact .of_kept rfl rfl
      · cases found
  | read address width =>
      have held : ram.Holds address width.bytes := inside
      obtain ⟨value, read, number⟩ := read?_of_holds_toNat held
      rw [grant?, read] at found
      cases found
      exact .of_kept (congrArg Answer.number number) rfl
  | write address width value =>
      obtain ⟨_, written, shape⟩ := Option.map_eq_some_iff.mp found
      cases shape
      obtain ⟨base, size⟩ := write?_place written
      exact ⟨rfl, base, size, write?_at? written⟩
  | load address bytes =>
      obtain ⟨_, loaded, shape⟩ := Option.map_eq_some_iff.mp found
      cases shape
      exact .of_patched fits rfl (load?_patched loaded)
  | fillZero address length =>
      obtain ⟨_, cleared, shape⟩ := Option.map_eq_some_iff.mp found
      cases shape
      exact .of_patched fits rfl (fillZero?_patched cleared)
  | slice address length =>
      have held : ram.Holds address length := inside
      rw [grant?, slice?_of_holds held] at found
      cases found
      exact .of_kept rfl rfl

-- One step: base and size stay, and each byte is the one put there, if any, or the one before.
theorem leaves_place (ram : Memory) (operation : Operation) :
    (operation.leaves ram).base = ram.base ∧ (operation.leaves ram).size = ram.size := by
  by_cases fits : operation.Fits ram.base ram.size
  · obtain ⟨given, after, found, granted⟩ := granted_of_fits fits
    rw [leaves, found]
    exact ⟨granted.base, granted.size⟩
  · rw [leaves_of_refused (refused_of_not_fits fits)]
    exact ⟨rfl, rfl⟩

theorem leaves_at? (ram : Memory) (operation : Operation) (position : Nat) :
    (operation.leaves ram).at? position =
      (if operation.Fits ram.base ram.size then operation.byteAt? position else none).or
        (ram.at? position) := by
  by_cases fits : operation.Fits ram.base ram.size
  · obtain ⟨given, after, found, granted⟩ := granted_of_fits fits
    rw [leaves, found, if_pos fits]
    exact granted.byte position
  · rw [leaves_of_refused (refused_of_not_fits fits), if_neg fits, Option.none_or]

end Operation

open Operation

def afterAll (ram : Memory) (operations : List Operation) : Memory :=
  operations.foldl leaves ram

/-- The bytes at the addresses after operations: each is the one that was put there last. -/
def contents (ram : Memory) (operations : List Operation) (position : Nat) : Option UInt8 :=
  (lastAt? ram.base ram.size operations position).or (ram.at? position)

theorem afterAll_place (ram : Memory) (operations : List Operation) :
    (ram.afterAll operations).base = ram.base ∧ (ram.afterAll operations).size = ram.size := by
  induction operations generalizing ram with
  | nil => exact ⟨rfl, rfl⟩
  | cons operation later ih =>
      obtain ⟨base, size⟩ := leaves_place ram operation
      obtain ⟨laterBase, laterSize⟩ := ih (operation.leaves ram)
      exact ⟨laterBase.trans base, laterSize.trans size⟩

theorem afterAll_at? (ram : Memory) (operations : List Operation) (position : Nat) :
    (ram.afterAll operations).at? position = ram.contents operations position := by
  induction operations generalizing ram with
  | nil => rfl
  | cons operation later ih =>
      obtain ⟨base, size⟩ := leaves_place ram operation
      change ((operation.leaves ram).afterAll later).at? position = _
      rw [ih, contents, contents, base, size, leaves_at?, lastAt?_cons, Option.or_assoc]

/-- Memory of the size from the base on does with an operation what the bytes at the addresses say. -/
structure Obeys (ram : Memory) (base size : UInt64) (content : Nat → Option UInt8)
    (operation : Operation) : Prop where
  granted_iff : (operation.grant? ram).isSome = true ↔ operation.Fits base size
  refused : operation.grant? ram = none → operation.leaves ram = ram
  granted : ∀ given after, operation.grant? ram = some (given, after) →
    Granted operation base size content given after

theorem obeys_at? (ram : Memory) (operation : Operation) :
    Obeys ram ram.base ram.size ram.at? operation := by
  refine ⟨grant?_isSome ram operation, leaves_of_refused, fun given after found => ?_⟩
  have fits := (grant?_isSome ram operation).mp (by rw [found]; rfl)
  obtain ⟨_, _, other, granted⟩ := granted_of_fits fits
  cases found.symm.trans other
  exact granted

/-- Operations on memory act on one map from addresses to bytes.  After any of them each byte is the
one that was put there last by an operation that was granted, the words in which ranges are computed do
not overflow, a byte is read as it stands, and every operation does what the bytes say. -/
theorem operations_act_on_bytes (ram : Memory) (earlier : List Operation) :
    (∀ position, (ram.afterAll earlier).at? position = ram.contents earlier position) ∧
    (∀ address length : UInt64,
      ((ram.afterAll earlier).wordRange? address length).map
          (Prod.map UInt64.toNat UInt64.toNat) =
        ((ram.afterAll earlier).offset? address length.toNat).map fun offset =>
          (offset, offset + length.toNat)) ∧
    (∀ address, (ram.afterAll earlier).read? address .byte =
      (ram.contents earlier address.toNat).map UInt8.toUInt64) ∧
    ∀ operation,
      Obeys (ram.afterAll earlier) ram.base ram.size (ram.contents earlier) operation := by
  obtain ⟨base, size⟩ := afterAll_place ram earlier
  have content := funext (afterAll_at? ram earlier)
  refine ⟨afterAll_at? ram earlier, wordRange?_toNat _, ?_, ?_⟩
  · intro address
    rw [read?_byte, content]
  · intro operation
    rw [← base, ← size, ← content]
    exact obeys_at? _ operation

/-- RAM may go on past the last address; only an access that starts before it gets there. -/
example :
    ((Operation.write 0xFFFFFFFFFFFFFFFC .double 0x8877665544332211).leaves
      (new 0xFFFFFFFFFFFFFFFC 8)).read? 0xFFFFFFFFFFFFFFFE .word = some 0x66554433 := by
  decide

end Memory

end HartScope
