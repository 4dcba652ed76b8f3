/-! Byte cells as a binary tree over their addresses.

The tree with `levels` levels holds `capacity levels` cells, and `get` is its semantic model: the bits of
an index, most significant first, lead from the root to its cell.  A subtree whose cells all hold
one value is a single `uniform` node, so a large memory that is mostly untouched stays small and a
range is cleared without visiting its cells.
-/

namespace HartScope

inductive Cells where
  | uniform (value : UInt8)
  | split (low high : Cells)
deriving DecidableEq, Repr

namespace Cells

/-- Two to the power of `levels`. -/
def capacity (levels : Nat) : Nat :=
  1 <<< levels

def halves : Cells → Cells × Cells
  | uniform value => (uniform value, uniform value)
  | split low high => (low, high)

def get : (levels : Nat) → Cells → (index : Nat) → UInt8
  | _, uniform value, _ => value
  | 0, split low _, index => low.get 0 index
  | levels + 1, split low high, index =>
      if index.testBit levels then high.get levels index else low.get levels index

def set : (levels : Nat) → Cells → (index : Nat) → (value : UInt8) → Cells
  | 0, _, _, value => uniform value
  | levels + 1, cells, index, value =>
      let (low, high) := cells.halves
      if index.testBit levels then split low (high.set levels index value)
      else split (low.set levels index value) high

/-- Puts `value` into the cells from `first` up to but not including `stop`. -/
def fill : (levels : Nat) → Cells → (first stop : Nat) → (value : UInt8) → Cells
  | 0, cells, first, stop, value => if first = 0 ∧ 0 < stop then uniform value else cells
  | levels + 1, cells, first, stop, value =>
      if stop ≤ first then cells
      else if first = 0 ∧ capacity (levels + 1) ≤ stop then uniform value
      else
        let (low, high) := cells.halves
        split (low.fill levels first (min stop (capacity levels)) value)
          (high.fill levels (first - capacity levels) (stop - capacity levels) value)

/-- The `count` cells from `index` on. -/
def slice (levels : Nat) (cells : Cells) (index count : Nat) : List UInt8 :=
  (List.range count).map fun i => cells.get levels (index + i)

def store (levels : Nat) (cells : Cells) (index : Nat) : List UInt8 → Cells
  | [] => cells
  | byte :: rest => store levels (cells.set levels index byte) (index + 1) rest

theorem capacity_zero : capacity 0 = 1 := rfl

theorem capacity_succ (levels : Nat) : capacity (levels + 1) = 2 * capacity levels := by
  rw [capacity, capacity, Nat.one_shiftLeft, Nat.one_shiftLeft, Nat.pow_succ, Nat.mul_comm]

theorem capacity_pos (levels : Nat) : 0 < capacity levels := by
  rw [capacity, Nat.one_shiftLeft]
  exact Nat.two_pow_pos levels

theorem get_uniform (levels : Nat) (value : UInt8) (index : Nat) :
    (uniform value).get levels index = value := by
  cases levels <;> rfl

theorem get_halves (levels : Nat) (cells : Cells) (index : Nat) :
    cells.get (levels + 1) index =
      if index.testBit levels then cells.halves.2.get levels index
      else cells.halves.1.get levels index := by
  cases cells with
  | uniform value => simp [halves, get_uniform]
  | split low high => rfl

theorem mod_capacity_succ (index levels : Nat) :
    index % capacity (levels + 1) =
      (if index.testBit levels then capacity levels else 0) + index % capacity levels := by
  rw [Nat.testBit_eq_decide_div_mod_eq, ← Nat.one_shiftLeft, ← capacity, capacity_succ,
    Nat.mul_comm, Nat.mod_mul]
  rcases Nat.mod_two_eq_zero_or_one (index / capacity levels) with even | odd
  · simp [even]
  · simp [odd, Nat.add_comm]

/-- Bits of an index above those of the tree play no part. -/
theorem get_mod (levels : Nat) (cells : Cells) (index : Nat) :
    cells.get levels (index % capacity levels) = cells.get levels index := by
  induction levels generalizing cells index with
  | zero =>
      induction cells with
      | uniform value => rfl
      | split low high ih _ => exact ih
  | succ levels ih =>
      have bit : (index % capacity (levels + 1)).testBit levels = index.testBit levels := by
        simp [capacity, Nat.one_shiftLeft, Nat.testBit_mod_two_pow]
      have low : index % capacity (levels + 1) % capacity levels = index % capacity levels := by
        rw [capacity_succ]
        exact Nat.mod_mul_left_mod index 2 (capacity levels)
      rw [get_halves, get_halves, bit, ← ih cells.halves.1 (index % _), low, ih,
        ← ih cells.halves.2 (index % _), low, ih]

theorem get_set_mod (levels : Nat) (cells : Cells) (index other : Nat) (value : UInt8) :
    (cells.set levels index value).get levels other =
      if other % capacity levels = index % capacity levels then value else cells.get levels other := by
  induction levels generalizing cells with
  | zero => simp [set, get_uniform, capacity_zero, Nat.mod_one]
  | succ levels ih =>
      have below := Nat.mod_lt other (capacity_pos levels)
      have within := Nat.mod_lt index (capacity_pos levels)
      rw [get_halves levels cells, mod_capacity_succ other, mod_capacity_succ index]
      cases indexBit : index.testBit levels <;> cases otherBit : other.testBit levels
      · simp [set, get, indexBit, otherBit, ih]
      · have distinct : capacity levels + other % capacity levels ≠ index % capacity levels := by omega
        simp [set, get, indexBit, otherBit, distinct]
      · have distinct : other % capacity levels ≠ capacity levels + index % capacity levels := by omega
        simp [set, get, indexBit, otherBit, distinct]
      · simp [set, get, indexBit, otherBit, ih]

theorem get_set {levels : Nat} (cells : Cells) {index other : Nat} (value : UInt8)
    (indexBound : index < capacity levels) (otherBound : other < capacity levels) :
    (cells.set levels index value).get levels other =
      if other = index then value else cells.get levels other := by
  rw [get_set_mod, Nat.mod_eq_of_lt indexBound, Nat.mod_eq_of_lt otherBound]

theorem get_fill {levels : Nat} (cells : Cells) {first stop index : Nat} (value : UInt8)
    (bound : index < capacity levels) :
    (cells.fill levels first stop value).get levels index =
      if first ≤ index ∧ index < stop then value else cells.get levels index := by
  induction levels generalizing cells first stop index with
  | zero =>
      simp only [capacity_zero, Nat.lt_one_iff] at bound
      subst bound
      by_cases covered : first = 0 ∧ 0 < stop <;> simp [fill, covered, get_uniform]
  | succ levels ih =>
      have offset := mod_capacity_succ index levels
      rw [Nat.mod_eq_of_lt bound] at offset
      have within := Nat.mod_lt index (capacity_pos levels)
      rw [capacity_succ] at bound
      unfold fill
      split
      · rename_i empty
        have outside : ¬ (first ≤ index ∧ index < stop) := by omega
        rw [if_neg outside]
      · split
        · rename_i whole
          rw [capacity_succ] at whole
          have inside : first ≤ index ∧ index < stop := by omega
          rw [if_pos inside, get_uniform]
        · have half (cells : Cells) (first stop : Nat) :
              (cells.fill levels first stop value).get levels index =
                if first ≤ index % capacity levels ∧ index % capacity levels < stop then value
                else cells.get levels index := by
            rw [← get_mod levels (cells.fill ..), ih _ within, get_mod]
          rw [get_halves levels cells]
          cases bit : index.testBit levels <;>
            simp only [bit, Bool.false_eq_true, if_true, if_false] at offset
          · have range : first ≤ index % capacity levels ∧ index % capacity levels < min stop (capacity levels) ↔
                first ≤ index ∧ index < stop := by omega
            simp only [get, bit, half, range, Bool.false_eq_true, if_false]
          · have range : first - capacity levels ≤ index % capacity levels ∧
                index % capacity levels < stop - capacity levels ↔ first ≤ index ∧ index < stop := by omega
            simp only [get, bit, half, range, if_true]

theorem get_store {levels : Nat} (cells : Cells) {index other : Nat} (bytes : List UInt8)
    (bound : index + bytes.length ≤ capacity levels) (otherBound : other < capacity levels) :
    (cells.store levels index bytes).get levels other =
      if index ≤ other ∧ other < index + bytes.length then bytes[other - index]?.getD 0
      else cells.get levels other := by
  induction bytes generalizing cells index with
  | nil =>
      have outside : ¬ (index ≤ other ∧ other < index) := by omega
      simp [store, outside]
  | cons byte rest ih =>
      simp only [List.length_cons] at bound
      rw [store, ih _ (by omega), get_set cells byte (by omega) otherBound]
      by_cases here : other = index
      · subst here
        have inside : other ≤ other ∧ other < other + (byte :: rest).length := by
          simp only [List.length_cons]
          omega
        rw [if_neg (by omega), if_pos rfl, if_pos inside, Nat.sub_self]
        rfl
      · by_cases later : index + 1 ≤ other
        · have position : other - index = other - (index + 1) + 1 := by omega
          have range : index + 1 ≤ other ∧ other < index + 1 + rest.length ↔
              index ≤ other ∧ other < index + (byte :: rest).length := by
            simp only [List.length_cons]
            omega
          simp only [range, here, if_false, position, List.getElem?_cons_succ]
        · have before : ¬ (index + 1 ≤ other ∧ other < index + 1 + rest.length) := by omega
          have beforeAll : ¬ (index ≤ other ∧ other < index + (byte :: rest).length) := by
            simp only [List.length_cons]
            omega
          rw [if_neg before, if_neg here, if_neg beforeAll]

@[simp] theorem slice_length (levels : Nat) (cells : Cells) (index count : Nat) :
    (cells.slice levels index count).length = count := by
  simp [slice]

theorem slice_getElem? (levels : Nat) (cells : Cells) {index count i : Nat} (bound : i < count) :
    (cells.slice levels index count)[i]? = some (cells.get levels (index + i)) := by
  simp [slice, bound]

end Cells

end HartScope
