import HartScope.Memory.Basic

/-!
Memories with the same contents.  Two memories can hold the same bytes in cells of different shape,
so agreement is stated through `byte`, and every operation respects it.
-/

namespace HartScope.Memory

/-- Base, size and every byte agree. -/
structure Same (first second : Memory) : Prop where
  base : first.base = second.base
  size : first.size = second.size
  byte : ∀ i < first.size.toNat, first.byte i = second.byte i

variable {first second memory after : Memory}

namespace Same

theorem refl (memory : Memory) : Same memory memory :=
  ⟨rfl, rfl, fun _ _ => rfl⟩

theorem offset?_eq (same : Same first second) (address : UInt64) (length : Nat) :
    first.offset? address length = second.offset? address length := by
  simp only [offset?, same.base, same.size]

theorem slice?_eq (same : Same first second) (address : UInt64) (length : Nat) :
    first.slice? address length = second.slice? address length := by
  unfold slice?
  rw [← same.offset?_eq]
  cases found : first.offset? address length with
  | none => rfl
  | some offset =>
      have inside := (offset?_bound found).2.2
      simp only [Option.map_some, Cells.slice, Option.some.injEq]
      apply List.map_congr_left
      intro i member
      have bound := List.mem_range.mp member
      exact same.byte (offset + i) (by omega)

theorem read?_eq (same : Same first second) (address : UInt64) (width : Width) :
    first.read? address width = second.read? address width := by
  simp only [read?, same.slice?_eq]

end Same

theorem load?_isSome (memory : Memory) (address : UInt64) (bytes : List UInt8) :
    (memory.load? address bytes).isSome = (memory.offset? address bytes.length).isSome := by
  simp [load?]

theorem load?_place {address : UInt64} {bytes : List UInt8}
    (loaded : memory.load? address bytes = some after) :
    after.base = memory.base ∧ after.size = memory.size := by
  obtain ⟨offset, _, rfl⟩ := Option.map_eq_some_iff.mp loaded
  exact ⟨rfl, rfl⟩

/-- The same bytes can be loaded into memories that agree, which then agree again. -/
theorem Same.load? (same : Same first second) {address : UInt64} {bytes : List UInt8}
    (loaded : second.load? address bytes = some after) :
    ∃ copy, first.load? address bytes = some copy ∧ Same copy after := by
  obtain ⟨offset, found, _⟩ := Option.map_eq_some_iff.mp loaded
  have located := found
  rw [← same.offset?_eq] at located
  have present : (first.load? address bytes).isSome := by
    rw [load?_isSome, located]
    rfl
  obtain ⟨copy, copied⟩ := Option.isSome_iff_exists.mp present
  have place := load?_place loaded
  have copyPlace := load?_place copied
  refine ⟨copy, copied, ?_, ?_, ?_⟩
  · rw [copyPlace.1, place.1, same.base]
  · rw [copyPlace.2, place.2, same.size]
  · intro i bound
    rw [copyPlace.2] at bound
    rw [load?_byte copied located bound, load?_byte loaded found (same.size ▸ bound),
      same.byte i bound]

theorem Same.load?_none (same : Same first second) {address : UInt64} {bytes : List UInt8}
    (refused : second.load? address bytes = none) : first.load? address bytes = none := by
  have absent := load?_isSome second address bytes
  rw [refused, ← same.offset?_eq, ← load?_isSome] at absent
  exact Option.isSome_eq_false_iff.mp absent.symm |> Option.isNone_iff_eq_none.mp

end HartScope.Memory
