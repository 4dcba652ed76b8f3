import HartScope.Proofs.Bus.Accounting
import HartScope.Proofs.Loading.Footprint

/-!
RAM as a map from addresses to bytes, and what stores do to it.  An address here is a number that
does not wrap, so that each byte has one address also where RAM goes on past the last 64-bit one.
-/

namespace HartScope

namespace LittleEndian

theorem ofNat_getElem? {count i : Nat} (value : Nat) (bound : i < count) :
    (ofNat count value)[i]? = some (UInt8.ofNat (value >>> (8 * i))) := by
  induction i generalizing count value with
  | zero =>
      cases count with
      | zero => contradiction
      | succ count => simp [ofNat]
  | succ i ih =>
      cases count with
      | zero => contradiction
      | succ count =>
          have shifted : (value / 256) >>> (8 * i) = value >>> (8 * (i + 1)) := by
            rw [Nat.mul_succ, Nat.add_comm, Nat.shiftRight_add, Nat.shiftRight_eq_div_pow value 8]
          rw [ofNat, List.getElem?_cons_succ, ih (value / 256) (by omega), shifted]

/-- Only the low bytes of a number are spelled. -/
theorem ofNat_mod (count value : Nat) :
    ofNat count (value % 1 <<< (8 * count)) = ofNat count value := by
  have spelled := ofNat_toNat (ofNat count value)
  rwa [ofNat_length, toNat_ofNat] at spelled

end LittleEndian

/-- A store of the low bytes of a word. -/
structure Store where
  address : UInt64
  width : Width
  value : UInt64
deriving DecidableEq, Repr

namespace Store

/-- The byte that the store puts at a position, if it covers it. -/
def byteAt? (store : Store) (position : Nat) : Option UInt8 :=
  if store.address.toNat ≤ position ∧ position < store.address.toNat + store.width.bytes then
    some (UInt8.ofNat (store.value.toNat >>> (8 * (position - store.address.toNat))))
  else none

/-- The byte that was last stored at a position, the latest store being the last of the list. -/
def lastAt? (stores : List Store) (position : Nat) : Option UInt8 :=
  stores.reverse.findSome? (·.byteAt? position)

theorem lastAt?_cons (store : Store) (later : List Store) (position : Nat) :
    lastAt? (store :: later) position = (lastAt? later position).or (store.byteAt? position) := by
  simp [lastAt?, List.findSome?_append]

/-- A misaligned half word inside a word that was stored before. -/
example :
    [0x1000, 0x1001, 0x1002, 0x1003, 0x1004].map
      (lastAt? [⟨0x1000, .word, 0x44332211⟩, ⟨0x1001, .half, 0x9988⟩]) =
        [some 0x11, some 0x88, some 0x99, some 0x44, none] := by
  decide

end Store

namespace Memory

variable {ram after : Memory} {address : UInt64}

/-- The byte at an address, if the address lies in RAM. -/
def at? (ram : Memory) (position : Nat) : Option UInt8 :=
  if ram.base.toNat ≤ position ∧ position < ram.base.toNat + ram.size.toNat then
    some (ram.byte (position - ram.base.toNat))
  else none

/-- The bytes stand in RAM from the address on. -/
def Spells (ram : Memory) (address : UInt64) (bytes : List UInt8) : Prop :=
  ∀ i < bytes.length, ram.at? (address.toNat + i) = bytes[i]?

theorem at?_isSome_iff (ram : Memory) (position : Nat) :
    (ram.at? position).isSome = true ↔
      ram.base.toNat ≤ position ∧ position < ram.base.toNat + ram.size.toNat := by
  unfold at?
  split <;> simp_all

theorem at?_patched {patch : Nat → Option UInt8} (patched : Patched patch ram after)
    (inside : ∀ position, (patch position).isSome → (ram.at? position).isSome) (position : Nat) :
    after.at? position = (patch position).or (ram.at? position) := by
  have within := inside position
  unfold at? at within ⊢
  rw [patched.base, patched.size]
  split
  · rename_i range
    have offset : ram.base.toNat + (position - ram.base.toNat) = position := by omega
    rw [patched.byte _ (by omega), offset]
    cases patch position <;> rfl
  · rename_i outside
    rw [if_neg outside] at within
    cases found : patch position with
    | none => rfl
    | some byte => simp [found] at within

/-- A read of bytes in RAM gives the number that they spell. -/
theorem read?_of_holds {width : Width} (inside : ram.Holds address width.bytes) :
    ∃ bytes, bytes.length = width.bytes ∧ ram.Spells address bytes ∧
      ram.read? address width = some (UInt64.ofNat (LittleEndian.toNat bytes)) := by
  obtain ⟨offset, found⟩ := Option.isSome_iff_exists.mp ((offset?_isSome_iff ..).mpr inside)
  obtain ⟨lower, upper⟩ := inside
  obtain ⟨_, position, _⟩ := offset?_bound found
  refine ⟨ram.cells.slice ram.levels offset width.bytes, Cells.slice_length .., ?_, ?_⟩
  · intro i bound
    rw [Cells.slice_length] at bound
    have index : address.toNat + i - ram.base.toNat = offset + i := by omega
    rw [Cells.slice_getElem? _ _ bound, at?, if_pos (by omega), index]
    rfl
  · simp only [read?, slice?, found, Option.map_some]

/-- A write of a word changes the bytes that it covers, and nothing else. -/
theorem write?_at? {width : Width} {value : UInt64}
    (written : ram.write? address width value = some after) (position : Nat) :
    after.at? position =
      ((Store.mk address width value).byteAt? position).or (ram.at? position) := by
  have inside : ram.Holds address width.bytes := (write?_isSome_iff ..).mp (by rw [written]; rfl)
  have patch (position : Nat) :
      (if address.toNat ≤ position ∧
          position < address.toNat + (LittleEndian.ofNat width.bytes value.toNat).length then
        (LittleEndian.ofNat width.bytes value.toNat)[position - address.toNat]?
      else none) = (Store.mk address width value).byteAt? position := by
    rw [LittleEndian.ofNat_length, Store.byteAt?]
    split
    · exact LittleEndian.ofNat_getElem? _ (by omega)
    · rfl
  have patched := load?_patched written
  rw [funext patch] at patched
  refine at?_patched patched (fun position covered => ?_) position
  obtain ⟨lower, upper⟩ := inside
  simp only [Store.byteAt?] at covered
  rw [at?_isSome_iff]
  split at covered
  · omega
  · cases covered

theorem write?_place {width : Width} {value : UInt64}
    (written : ram.write? address width value = some after) :
    after.base = ram.base ∧ after.size = ram.size :=
  load?_place written

/-- The bits of the word above its width are not stored. -/
theorem write?_masked (width : Width) (value : UInt64) :
    ram.write? address width (value &&& width.mask) = ram.write? address width value := by
  have low : (value &&& width.mask).toNat = value.toNat % 1 <<< (8 * width.bytes) := by
    rw [UInt64.toNat_and, Width.mask_toNat, Nat.one_shiftLeft, Nat.and_two_pow_sub_one_eq_mod]
  rw [write?, write?, low, LittleEndian.ofNat_mod]

end Memory

end HartScope
