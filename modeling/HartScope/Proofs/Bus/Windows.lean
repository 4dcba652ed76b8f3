import HartScope.Proofs.Bus.Accounting
import HartScope.Device.Peripheral

/-!
Which accesses a device's window lets through.  In exact arithmetic they are those whose bytes all lie
in the window, with one exception: the end of an access stays at the last address where it would pass
it, so a window that ends there also lets through what runs beyond.
-/

namespace HartScope

namespace Window

variable {window : Window} {address : UInt64} {length : Nat}

/-- One past the last address of the window, as a number that does not wrap. -/
def stop (window : Window) : Nat :=
  window.start.toNat + window.size.toNat

/-- The end of the window is itself an address. -/
def Bounded (window : Window) : Prop :=
  window.stop < UInt64.size

/-- All `length` bytes from `address` on are bytes of the window. -/
def Contains (window : Window) (address : UInt64) (length : Nat) : Prop :=
  window.start.toNat ≤ address.toNat ∧ address.toNat + length ≤ window.stop

/-- The window ends at the last address, and the access has a byte there or beyond. -/
def Overrun (window : Window) (address : UInt64) (length : Nat) : Prop :=
  window.start.toNat ≤ address.toNat ∧ window.stop = UInt64.size - 1 ∧
    UInt64.size ≤ address.toNat + length

instance : Decidable window.Bounded :=
  inferInstanceAs (Decidable (_ < _))

instance : Decidable (window.Contains address length) :=
  inferInstanceAs (Decidable (_ ∧ _))

/-- A window whose end wraps lets nothing through, since its end then lies below its start. -/
theorem covers_iff (positive : 0 < length) :
    window.covers address length = true ↔
      window.Bounded ∧ (window.Contains address length ∨ window.Overrun address length) := by
  have startBound := window.start.toNat_lt
  have sizeBound := window.size.toNat_lt
  have addressBound := address.toNat_lt
  simp only [covers, Bounded, Contains, Overrun, stop, Bool.and_eq_true, decide_eq_true_eq,
    UInt64.le_iff_toNat_le, UInt64.toNat_add, UInt64.size]
  omega

theorem Contains.offset (contained : window.Contains address length) :
    (address - window.start).toNat + length ≤ window.size.toNat := by
  have lower := contained.1
  have upper := contained.2
  rw [UInt64.toNat_sub_of_le _ _ (UInt64.le_iff_toNat_le.mpr lower)]
  unfold stop at upper
  omega

/-- No access is let through by both windows. -/
def Apart (first second : Window) : Prop :=
  ∀ address length, 0 < length →
    ¬(first.covers address length = true ∧ second.covers address length = true)

theorem Apart.symm {first second : Window} (apart : first.Apart second) : second.Apart first := by
  intro address length positive both
  exact apart address length positive both.symm

/-- Windows that share no address are apart, if they are not empty: an empty window at the last address
lets an access through there. -/
theorem Apart.of_disjoint {first second : Window} (firstSize : 0 < first.size)
    (secondSize : 0 < second.size)
    (disjoint : first.stop ≤ second.start.toNat ∨ second.stop ≤ first.start.toNat) :
    first.Apart second := by
  intro address length positive ⟨inFirst, inSecond⟩
  rw [covers_iff positive] at inFirst inSecond
  rw [UInt64.lt_iff_toNat_lt, UInt64.toNat_zero] at firstSize secondSize
  have addressBound := address.toNat_lt
  simp only [Bounded, Contains, Overrun, stop, UInt64.size] at inFirst inSecond disjoint
  omega

end Window

namespace Memory

/-- RAM serves the accesses whose bytes it holds, and no others. -/
theorem serve?_isSome_iff {ram : Memory} {request : Bus.Request} {address : UInt64} {length : Nat}
    (range : request.range? = some (address, length)) :
    (ram.serve? request).isSome = true ↔ ram.Holds address length := by
  cases request with
  | read address width kind =>
      cases range
      simp [serve?, read?_isSome_iff]
  | write address width value =>
      cases range
      simp [serve?, write?_isSome_iff]
  | takeTouched => cases range

end Memory

namespace Bus

/-- The answer to an access that nobody serves. -/
def Request.refusal : Request → Answer
  | .read address width kind => .read (.error ⟨address, width, kind⟩)
  | .write address width _ => .written (.error ⟨address, width, .write⟩)
  | .takeTouched => .taken false

theorem Request.range_positive {request : Request} {address : UInt64} {length : Nat}
    (range : request.range? = some (address, length)) : 0 < length := by
  cases request with
  | read _ width _ =>
      cases range
      exact width.bytes_pos
  | write _ width _ =>
      cases range
      exact width.bytes_pos
  | takeTouched => cases range

theorem Request.refusal_isRefusal {request : Request} {range : UInt64 × Nat}
    (accessed : request.range? = some range) : request.refusal.isRefusal = true := by
  cases request with
  | read address width kind => rfl
  | write address width value => rfl
  | takeTouched => cases accessed

variable {δ : Type} [Device δ]

/-- The device at a position answers a request at an offset into its window. -/
def deliver (bus : Bus δ) (position : Nat) (device : δ) (offset : UInt64) : Request → Response δ
  | .read address width _ =>
      let (value, after) := Device.read device width offset
      ⟨.read (.ok value), bus.served position after,
        [.log (.deviceRead address value (Device.name device))]⟩
  | .write address width value =>
      let (after, sent) := Device.write device width offset value
      ⟨.written (.ok ()), bus.served position after,
        [.serial sent, .log (.deviceWrite address value (Device.name device))]⟩
  | .takeTouched => ⟨.taken bus.touched, { bus with touched := false }, []⟩

theorem deliver_answer (bus : Bus δ) (position : Nat) (device : δ) (offset : UInt64)
    (request : Request) : (bus.deliver position device offset request).answer.isRefusal = false := by
  cases request <;> rfl

/-- The answer to an access outside RAM that is left to a device, or to nobody. -/
def settle (bus : Bus δ) (address : UInt64) (request : Request) : Option (Nat × δ) → Response δ
  | none => ⟨request.refusal, bus, []⟩
  | some (position, device) =>
      bus.deliver position device (address - (Device.window device).start) request

/-- How a request is answered when `claim?` says which device serves an access outside RAM. -/
def serveVia (bus : Bus δ) (claim? : UInt64 → Nat → Option (Nat × δ)) (request : Request) :
    Response δ :=
  match request.range? with
  | none => ⟨.taken bus.touched, { bus with touched := false }, []⟩
  | some (address, length) =>
      match bus.ram.serve? request with
      | some (answer, ram) => ⟨answer, { bus with ram := ram }, []⟩
      | none => bus.settle address request (claim? address length)

theorem serveVia_outside {bus : Bus δ} {request : Request} {address : UInt64} {length : Nat}
    (range : request.range? = some (address, length)) (outside : ¬bus.ram.Holds address length)
    (claim? : UInt64 → Nat → Option (Nat × δ)) :
    bus.serveVia claim? request = bus.settle address request (claim? address length) := by
  have unserved : bus.ram.serve? request = none := by
    rw [← Option.not_isSome_iff_eq_none, Memory.serve?_isSome_iff range]
    exact outside
  simp only [serveVia, range, unserved]

/-- It only matters to an access outside RAM which device serves it. -/
theorem serveVia_inside {bus : Bus δ} {request : Request}
    (inside : ∀ range ∈ request.range?, bus.ram.Holds range.1 range.2)
    (claim? other? : UInt64 → Nat → Option (Nat × δ)) :
    bus.serveVia claim? request = bus.serveVia other? request := by
  cases accessed : request.range? with
  | none => simp only [serveVia, accessed]
  | some range =>
      obtain ⟨served, answered⟩ := Option.isSome_iff_exists.mp
        ((Memory.serve?_isSome_iff accessed).mpr (inside range accessed))
      simp only [serveVia, accessed, answered]

theorem serve_eq_serveVia (bus : Bus δ) (request : Request) :
    bus.serve request = bus.serveVia bus.target? request := by
  cases request with
  | takeTouched => rfl
  | read address width kind =>
      simp only [serveVia, Request.range?, Memory.serve?, serve]
      rcases bus.read_cases address width kind with ⟨value, found, shape⟩ |
        ⟨missing, nobody, shape⟩ | ⟨position, device, missing, chosen, shape⟩
      · simp only [shape, found, Option.map_some]
      · simp only [shape, missing, nobody, Option.map_none, settle, Request.refusal]
      · simp only [shape, missing, chosen, Option.map_none, settle, deliver, deviceRead]
  | write address width value =>
      simp only [serveVia, Request.range?, Memory.serve?, serve]
      rcases bus.write_cases address width value with ⟨ram, stored, shape⟩ |
        ⟨missing, nobody, shape⟩ | ⟨position, device, missing, chosen, shape⟩
      · simp only [shape, stored, Option.map_some]
      · simp only [shape, missing, nobody, Option.map_none, settle, Request.refusal]
      · simp only [shape, missing, chosen, Option.map_none, settle, deliver, deviceWrite]

/-- The bus answers an access outside RAM as a device does that stands on it, at the offset of the
address from the start of the device's window, or refuses it. -/
theorem serve_cases (bus : Bus δ) {request : Request} {address : UInt64} {length : Nat}
    (range : request.range? = some (address, length)) (outside : ¬bus.ram.Holds address length) :
    (bus.target? address length = none ∧ bus.serve request = ⟨request.refusal, bus, []⟩) ∨
      ∃ position device, bus.target? address length = some (position, device) ∧
        bus.serve request =
          bus.deliver position device (address - (Device.window device).start) request := by
  rw [serve_eq_serveVia, serveVia_outside range outside]
  cases chosen : bus.target? address length with
  | none => exact .inl ⟨rfl, rfl⟩
  | some claim => exact .inr ⟨claim.1, claim.2, rfl, rfl⟩

/-- An access outside RAM is refused only if no window holds all its bytes, and a device that serves it
gets an offset from which on all its bytes lie in the window.  The one exception is a window that
ends at the last address, which also lets through what runs beyond. -/
theorem device_accesses_keep_to_window (bus : Bus δ) {request : Request} {address : UInt64}
    {length : Nat} (range : request.range? = some (address, length))
    (outside : ¬bus.ram.Holds address length) :
    (bus.serve request = ⟨request.refusal, bus, []⟩ ∧
      ∀ device ∈ bus.devices, (Device.window device).Bounded →
        ¬(Device.window device).Contains address length) ∨
      ∃ position device offset, bus.devices[position]? = some device ∧
        bus.serve request = bus.deliver position device offset request ∧
        (Device.window device).start.toNat + offset.toNat = address.toNat ∧
        (offset.toNat + length ≤ (Device.window device).size.toNat ∨
          (Device.window device).Overrun address length) := by
  have positive := Request.range_positive range
  rcases bus.serve_cases range outside with ⟨nobody, answered⟩ | ⟨position, device, chosen, answered⟩
  · refine .inl ⟨answered, fun device attached bounded contained => ?_⟩
    have claimed : bus.Claims address length :=
      ⟨device, attached, (Window.covers_iff positive).mpr ⟨bounded, .inl contained⟩⟩
    rw [← target?_isSome_iff, nobody] at claimed
    contradiction
  · obtain ⟨standing, covered⟩ := target?_claims chosen
    obtain ⟨_, inside⟩ := (Window.covers_iff positive).mp covered
    have lower : (Device.window device).start.toNat ≤ address.toNat :=
      inside.elim (·.1) (·.1)
    have place : (address - (Device.window device).start).toNat =
        address.toNat - (Device.window device).start.toNat :=
      UInt64.toNat_sub_of_le _ _ (UInt64.le_iff_toNat_le.mpr lower)
    exact .inr ⟨position, device, _, standing, answered, by omega,
      inside.imp_left Window.Contains.offset⟩

/-- The device stands on the bus, its window does not wrap, and no other device lets an access through
that its window lets through. -/
structure Reserved (bus : Bus δ) (position : Nat) (device : δ) : Prop where
  standing : bus.devices[position]? = some device
  bounded : (Device.window device).Bounded
  alone : ∀ other neighbour, other ≠ position → bus.devices[other]? = some neighbour →
    (Device.window neighbour).Apart (Device.window device)

namespace Reserved

variable {bus : Bus δ} {position : Nat} {device : δ}

theorem target?_eq (reserved : bus.Reserved position device) {address : UInt64} {length : Nat}
    (positive : 0 < length) (inside : (Device.window device).Contains address length) :
    bus.target? address length = some (position, device) := by
  have covered : (Device.window device).covers address length = true :=
    (Window.covers_iff positive).mpr ⟨reserved.bounded, .inl inside⟩
  have claimed : bus.Claims address length :=
    ⟨_, List.mem_of_getElem? reserved.standing, covered⟩
  obtain ⟨⟨other, neighbour⟩, chosen⟩ :=
    Option.isSome_iff_exists.mp ((bus.target?_isSome_iff address length).mpr claimed)
  obtain ⟨standing, claims⟩ := target?_claims chosen
  by_cases same : other = position
  · subst same
    rw [reserved.standing] at standing
    cases standing
    exact chosen
  · have apart := reserved.alone other neighbour same standing
    exact absurd ⟨claims, covered⟩ (apart address length positive)

theorem served (reserved : bus.Reserved position device) {after : δ}
    (window : Device.window after = Device.window device) :
    (bus.served position after).Reserved position after := by
  obtain ⟨inside, _⟩ := List.getElem?_eq_some_iff.mp reserved.standing
  refine ⟨List.getElem?_set_self inside, window ▸ reserved.bounded, ?_⟩
  intro other neighbour apart standing
  rw [Bus.served, List.getElem?_set_ne apart.symm] at standing
  rw [window]
  exact reserved.alone other neighbour apart standing

/-- An access to the window, outside RAM, is the device's to answer. -/
theorem serve_eq (reserved : bus.Reserved position device) {request : Request} {address : UInt64}
    {length : Nat} (range : request.range? = some (address, length))
    (inside : (Device.window device).Contains address length)
    (outside : ¬bus.ram.Holds address length) :
    bus.serve request =
      bus.deliver position device (address - (Device.window device).start) request := by
  rw [serve_eq_serveVia, serveVia_outside range outside,
    reserved.target?_eq (Request.range_positive range) inside, settle]

end Reserved

/-- A serial line whose window ends at the last address. -/
def edgeBus : Bus Serial :=
  withDevices (Memory.new 0x80000000 64) [{ base := 0xFFFFFFFFFFFFFFF7 }]

theorem edgeBus_devices : edgeBus.devices = [{ base := 0xFFFFFFFFFFFFFFF7 }] := by
  decide +kernel

/-- A word inside the window reaches the device at its offset. -/
theorem edge_window_serves_inner_word :
    Request.range? (.write 0xFFFFFFFFFFFFFFF9 .word 65) = some (0xFFFFFFFFFFFFFFF9, 4) ∧
      ¬edgeBus.ram.Holds 0xFFFFFFFFFFFFFFF9 4 ∧
      ∃ position device offset, edgeBus.devices[position]? = some device ∧
        edgeBus.serve (.write 0xFFFFFFFFFFFFFFF9 .word 65) =
          edgeBus.deliver position device offset (.write 0xFFFFFFFFFFFFFFF9 .word 65) ∧
        (Device.window device).start.toNat + offset.toNat = 0xFFFFFFFFFFFFFFF9 ∧
        offset.toNat + 4 ≤ (Device.window device).size.toNat := by
  have range : Request.range? (.write 0xFFFFFFFFFFFFFFF9 .word 65) =
      some (0xFFFFFFFFFFFFFFF9, 4) := rfl
  have outside : ¬edgeBus.ram.Holds 0xFFFFFFFFFFFFFFF9 4 := fun inside =>
    absurd inside.2 (by decide +kernel)
  refine ⟨range, outside, ?_⟩
  rcases edgeBus.device_accesses_keep_to_window range outside with
    ⟨_, unclaimed⟩ | ⟨position, device, offset, standing, answered, place, within | overrun⟩
  · have nobody := unclaimed { base := 0xFFFFFFFFFFFFFFF7 } (by simp [edgeBus_devices])
    exact absurd (nobody (by decide)) (not_not_intro (by decide))
  · exact ⟨position, device, offset, standing, answered, place, within⟩
  · exact absurd overrun.2.2 (by decide)

/-- The byte at the last address is served by the device whose window ends there, at an offset equal
to the size of the window. -/
theorem edge_window_serves_last_byte :
    ¬∀ (bus : Bus Serial) (address : UInt64) (width : Width) (position : Nat) (device : Serial),
      ¬bus.ram.Holds address width.bytes →
        bus.target? address width.bytes = some (position, device) →
        (Device.window device).Bounded →
          (Device.window device).Contains address width.bytes := by
  intro exactly
  have contained := exactly edgeBus 0xFFFFFFFFFFFFFFFF .byte 0 { base := 0xFFFFFFFFFFFFFFF7 }
    (fun inside => absurd inside.2 (by decide +kernel)) (by decide +kernel) (by decide)
  exact absurd contained (by decide)

end Bus

end HartScope
