import HartScope.Loading.Image
import HartScope.Proofs.Memory.Same

/-!
Which bytes of RAM a loader changes.  What is copied to RAM is a patch that has a byte for some of the
addresses, and one patch after the other is again a patch.
-/

namespace HartScope

/-- Base and size are kept, and each byte is the one that the patch has for its address, or kept. -/
structure Memory.Patched (patch : Nat → Option UInt8) (before after : Memory) : Prop where
  base : after.base = before.base
  size : after.size = before.size
  byte : ∀ i < before.size.toNat,
    after.byte i = (patch (before.base.toNat + i)).getD (before.byte i)

/-- Base and size are kept, and outside the addresses from `start` up to `stop` each byte is kept or
cleared. -/
structure Memory.ConfinedTo (start stop : Nat) (before after : Memory) : Prop where
  base : after.base = before.base
  size : after.size = before.size
  outside : ∀ i < before.size.toNat,
    ¬(start ≤ before.base.toNat + i ∧ before.base.toNat + i < stop) →
      after.byte i = before.byte i ∨ after.byte i = 0

namespace Memory

variable {before between after : Memory} {address : UInt64}

theorem Patched.refl (memory : Memory) : Patched (fun _ => none) memory memory :=
  ⟨rfl, rfl, fun _ _ => rfl⟩

theorem Patched.trans {first second : Nat → Option UInt8} (earlier : Patched first before between)
    (later : Patched second between after) :
    Patched (fun address => (second address).or (first address)) before after := by
  refine ⟨later.base.trans earlier.base, later.size.trans earlier.size, ?_⟩
  intro i bound
  rw [later.byte i (by rwa [earlier.size]), earlier.byte i bound, earlier.base]
  cases second (before.base.toNat + i) <;> rfl

theorem Patched.congr {first second : Nat → Option UInt8} (patched : Patched first before after)
    (same : ∀ address, second address = first address) : Patched second before after :=
  (funext same : second = first) ▸ patched

theorem load?_patched {bytes : List UInt8} (loaded : before.load? address bytes = some after) :
    Patched (fun position =>
      if address.toNat ≤ position ∧ position < address.toNat + bytes.length then
        bytes[position - address.toNat]?
      else none) before after := by
  obtain ⟨offset, found, _⟩ := Option.map_eq_some_iff.mp loaded
  obtain ⟨base, size⟩ := load?_place loaded
  obtain ⟨lower, position, _⟩ := offset?_bound found
  rw [UInt64.le_iff_toNat_le] at lower
  refine ⟨base, size, ?_⟩
  intro i bound
  rw [load?_byte loaded found bound]
  by_cases covered : offset ≤ i ∧ i < offset + bytes.length
  · have index : before.base.toNat + i - address.toNat = i - offset := by omega
    have present : i - offset < bytes.length := by omega
    rw [if_pos covered, if_pos (by omega), index, List.getElem?_eq_getElem present]
    rfl
  · rw [if_neg covered, if_neg (by omega)]
    rfl

theorem fillZero?_patched {length : Nat} (cleared : before.fillZero? address length = some after) :
    Patched (fun position =>
      if address.toNat ≤ position ∧ position < address.toNat + length then some 0 else none)
      before after := by
  obtain ⟨offset, found, shape⟩ := Option.map_eq_some_iff.mp cleared
  obtain ⟨lower, position, _⟩ := offset?_bound found
  rw [UInt64.le_iff_toNat_le] at lower
  refine ⟨by rw [← shape], by rw [← shape], ?_⟩
  intro i bound
  rw [fillZero?_byte cleared found bound]
  by_cases covered : offset ≤ i ∧ i < offset + length
  · rw [if_pos covered, if_pos (by omega)]
    rfl
  · rw [if_neg covered, if_neg (by omega)]
    rfl

theorem load?_confined {bytes : List UInt8} (loaded : before.load? address bytes = some after) :
    ConfinedTo address.toNat (address.toNat + bytes.length) before after := by
  have patched := load?_patched loaded
  refine ⟨patched.base, patched.size, ?_⟩
  intro i bound apart
  rw [patched.byte i bound, if_neg apart]
  exact .inl rfl

theorem new_byte (base size : UInt64) (i : Nat) : (new base size).byte i = 0 :=
  Cells.get_uniform _ _ _

end Memory

/-- Every address of the image is an address of RAM. -/
structure Image.Inside (image : Image) (memory : Memory) : Prop where
  lower : memory.base.toNat ≤ image.start.toNat
  upper : image.start.toNat + image.size.toNat ≤ memory.base.toNat + memory.size.toNat

/-- The byte at an offset from the base of RAM belongs to the image. -/
def Image.Covers (image : Image) (base : UInt64) (offset : Nat) : Prop :=
  image.start.toNat ≤ base.toNat + offset ∧
    base.toNat + offset < image.start.toNat + image.size.toNat

instance (image : Image) (base : UInt64) (offset : Nat) : Decidable (image.Covers base offset) :=
  inferInstanceAs (Decidable (_ ∧ _))

theorem Image.Inside.offset? {image : Image} {memory : Memory} (inside : image.Inside memory) :
    memory.offset? image.start image.size.toNat =
      some (image.start.toNat - memory.base.toNat) := by
  have lower := inside.lower
  have upper := inside.upper
  apply if_pos
  rw [UInt64.le_iff_toNat_le]
  omega

end HartScope
