import HartScope.Proofs.Memory.Contents
import Mathlib.Data.List.Iterate

/-!
Words of RAM one behind the other.  The addresses of a row go up by four and wrap around at the last one,
and RAM is shorter than the way round, so a row of words inside RAM is never longer than RAM.
-/

namespace HartScope.Memory

instance (ram : Memory) (address : UInt64) (length : Nat) : Decidable (ram.Holds address length) :=
  inferInstanceAs (Decidable (_ ∧ _))

/-- The little-endian number of the four bytes from an address on. -/
def wordAt (ram : Memory) (address : UInt64) : Nat :=
  ∑ i ∈ Finset.range 4, ((ram.at? (address.toNat + i)).getD 0).toNat * 256 ^ i

/-- Of `count` addresses that go up by four, those before the first one without a word inside RAM. -/
def wordRow (ram : Memory) (count : Nat) (address : UInt64) : List UInt64 :=
  (List.iterate (· + 4) address count).takeWhile fun place => ram.Holds place 4

/-- The address at which the row of words ends, if it is shorter than `count`. -/
def rowEnd? (ram : Memory) (count : Nat) (address : UInt64) : Option UInt64 :=
  let shown := (ram.wordRow count address).length
  if shown < count then some (address + 4 * UInt64.ofNat shown) else none

variable {ram : Memory} {count : Nat} {address : UInt64}

theorem wordRow_of_holds (inside : ram.Holds address 4) :
    ram.wordRow (count + 1) address = address :: ram.wordRow count (address + 4) :=
  List.takeWhile_cons_of_pos (decide_eq_true inside)

theorem wordRow_of_not_holds (outside : ¬ram.Holds address 4) : ram.wordRow count address = [] := by
  cases count with
  | zero => rfl
  | succ count => exact List.takeWhile_cons_of_neg (by simpa using outside)

theorem rowEnd?_zero (ram : Memory) (address : UInt64) : ram.rowEnd? 0 address = none := rfl

theorem rowEnd?_of_holds (inside : ram.Holds address 4) :
    ram.rowEnd? (count + 1) address = ram.rowEnd? count (address + 4) := by
  simp only [rowEnd?, wordRow_of_holds inside, List.length_cons, Nat.add_lt_add_iff_right]
  have onward (shown : Nat) :
      address + 4 * UInt64.ofNat (shown + 1) = address + 4 + 4 * UInt64.ofNat shown := by
    rw [UInt64.ofNat_add, UInt64.mul_add, UInt64.add_comm (4 * _), ← UInt64.add_assoc]
    rfl
  rw [onward]

theorem rowEnd?_of_not_holds (outside : ¬ram.Holds address 4) :
    ram.rowEnd? (count + 1) address = some address := by
  simp [rowEnd?, wordRow_of_not_holds outside]

theorem wordRow_length_le (ram : Memory) (count : Nat) (address : UInt64) :
    (ram.wordRow count address).length ≤ count :=
  (List.takeWhile_sublist _).length_le.trans_eq (List.length_iterate _ _ _)

/-- Two words in a row inside RAM lie next to each other, also where RAM goes on past the last address. -/
theorem toNat_next (inside : ram.Holds address 4) (next : ram.Holds (address + 4) 4) :
    (address + 4).toNat = address.toNat + 4 := by
  have sum := UInt64.toNat_add address 4
  have size := ram.size.toNat_lt
  have place := address.toNat_lt
  have four : (4 : UInt64).toNat = 4 := rfl
  obtain ⟨_, upper⟩ := inside
  obtain ⟨lower, _⟩ := next
  omega

theorem wordRow_reaches (count : Nat) (inside : ram.Holds address 4) :
    address.toNat + 4 * (ram.wordRow count address).length ≤ ram.base.toNat + ram.size.toNat := by
  induction count generalizing address with
  | zero => exact (Nat.le_add_right _ 4).trans inside.2
  | succ count ih =>
      rw [wordRow_of_holds inside, List.length_cons]
      by_cases next : ram.Holds (address + 4) 4
      · have reached := ih next
        rw [toNat_next inside next] at reached
        omega
      · rw [wordRow_of_not_holds next]
        exact inside.2

/-- A row of words is not longer than RAM. -/
theorem wordRow_length_le_size (ram : Memory) (count : Nat) (address : UInt64) :
    (ram.wordRow count address).length ≤ ram.size.toNat / 4 := by
  by_cases inside : ram.Holds address 4
  · have reached := wordRow_reaches count inside
    have lower := inside.1
    omega
  · rw [wordRow_of_not_holds inside]
    exact Nat.zero_le _

/-- Who asks for words until there is none asks for no more than RAM holds and one. -/
theorem asked_length_le (ram : Memory) (count : Nat) (address : UInt64) :
    (ram.wordRow count address ++ (ram.rowEnd? count address).toList).length ≤
      min count (ram.size.toNat / 4 + 1) := by
  have within := ram.wordRow_length_le count address
  have bounded := ram.wordRow_length_le_size count address
  rw [List.length_append, rowEnd?]
  split
  · rw [Option.toList_some, List.length_singleton]
    omega
  · rw [Option.toList_none, List.length_nil]
    omega

theorem read?_word_of_holds (inside : ram.Holds address 4) :
    ∃ value, ram.read? address .word = some value ∧ value.toUInt32.toNat = ram.wordAt address := by
  have whole : ram.Holds address Width.word.bytes := inside
  obtain ⟨value, read, number⟩ := read?_of_holds_toNat whole
  obtain ⟨bytes, four, _, found⟩ := read?_of_holds whole
  have small : value.toNat < 2 ^ 32 := by
    have bound := LittleEndian.toNat_lt bytes
    rw [four] at bound
    rw [Option.some.inj (read.symm.trans found), UInt64.toNat_ofNat']
    exact (Nat.mod_le _ _).trans_lt bound
  refine ⟨value, read, ?_⟩
  rw [UInt64.toNat_toUInt32, Nat.mod_eq_of_lt small, number]
  rfl

theorem read?_word_of_not_holds (outside : ¬ram.Holds address 4) :
    ram.read? address .word = none :=
  Option.not_isSome_iff_eq_none.mp (mt (read?_isSome_iff ram address .word).mp outside)

end HartScope.Memory
