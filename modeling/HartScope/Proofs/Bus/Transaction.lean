import HartScope.Bus

/-!
What one transaction can do.  RAM serves it and no device notices, or one device that claims the
whole range serves it and RAM stays, or nobody claims it and nothing happens.
-/

namespace HartScope.Bus

variable {δ : Type} [Device δ]

theorem scan?_claims {bus : Bus δ} {address : UInt64} {length position : Nat}
    (found : bus.scan? address length = some position) :
    ∃ device, bus.devices[position]? = some device ∧
      (Device.window device).covers address length = true := by
  obtain ⟨inside, covered, _⟩ := List.findIdx?_eq_some_iff_getElem.mp found
  exact ⟨bus.devices[position], List.getElem?_eq_getElem inside, covered⟩

theorem route?_claims {bus : Bus δ} {address : UInt64} {length position : Nat}
    (found : bus.route? address length = some position) :
    ∃ device, bus.devices[position]? = some device ∧
      (Device.window device).covers address length = true := by
  unfold route? at found
  split at found
  · rename_i device hinted
    split at found
    · rename_i covered
      cases found
      exact ⟨device, hinted, covered⟩
    · exact scan?_claims found
  · exact scan?_claims found

/-- The device that serves an access stands on the bus and claims all of it. -/
theorem target?_claims {bus : Bus δ} {address : UInt64} {length position : Nat} {device : δ}
    (found : bus.target? address length = some (position, device)) :
    bus.devices[position]? = some device ∧
      (Device.window device).covers address length = true := by
  simp only [target?, Option.bind_eq_some_iff, Option.map_eq_some_iff, Prod.mk.injEq] at found
  obtain ⟨routed, chosen, server, standing, rfl, rfl⟩ := found
  obtain ⟨claimant, present, covered⟩ := route?_claims chosen
  rw [standing] at present
  cases present
  exact ⟨standing, covered⟩

theorem target?_of_no_devices {bus : Bus δ} (bare : bus.devices = []) (address : UInt64)
    (length : Nat) : bus.target? address length = none := by
  simp [target?, bare]

theorem attached_of_target? {bus : Bus δ} {address : UInt64} {length : Nat} {claim : Nat × δ}
    (found : bus.target? address length = some claim) : bus.devices ≠ [] := by
  intro bare
  rw [target?_of_no_devices bare] at found
  cases found

/-- The answer to a read that a device serves. -/
def deviceRead (bus : Bus δ) (address : UInt64) (width : Width) (position : Nat) (device : δ) :
    Transaction δ UInt64 :=
  let (value, after) := Device.read device width (address - (Device.window device).start)
  ⟨.ok value, bus.served position after,
    [.log (.deviceRead address value (Device.name device))]⟩

/-- The answer to a write that a device serves. -/
def deviceWrite (bus : Bus δ) (address : UInt64) (width : Width) (value : UInt64) (position : Nat)
    (device : δ) : Transaction δ Unit :=
  let (after, sent) :=
    Device.write device width (address - (Device.window device).start) value
  ⟨.ok (), bus.served position after,
    [.serial sent, .log (.deviceWrite address value (Device.name device))]⟩

theorem read_cases (bus : Bus δ) (address : UInt64) (width : Width) (kind : AccessKind) :
    (∃ value, bus.ram.read? address width = some value ∧
      bus.read address width kind = ⟨.ok value, bus, []⟩) ∨
    (bus.ram.read? address width = none ∧ bus.target? address width.bytes = none ∧
      bus.read address width kind = ⟨.error ⟨address, width, kind⟩, bus, []⟩) ∨
    (∃ position device, bus.ram.read? address width = none ∧
      bus.target? address width.bytes = some (position, device) ∧
      bus.read address width kind = bus.deviceRead address width position device) := by
  unfold read
  cases inRam : bus.ram.read? address width with
  | some value => exact .inl ⟨value, rfl, rfl⟩
  | none =>
      cases found : bus.target? address width.bytes with
      | none => exact .inr (.inl ⟨rfl, rfl, rfl⟩)
      | some claim => exact .inr (.inr ⟨claim.1, claim.2, rfl, rfl, rfl⟩)

theorem write_cases (bus : Bus δ) (address : UInt64) (width : Width) (value : UInt64) :
    (∃ ram, bus.ram.write? address width value = some ram ∧
      bus.write address width value = ⟨.ok (), { bus with ram := ram }, []⟩) ∨
    (bus.ram.write? address width value = none ∧ bus.target? address width.bytes = none ∧
      bus.write address width value = ⟨.error ⟨address, width, .write⟩, bus, []⟩) ∨
    (∃ position device, bus.ram.write? address width value = none ∧
      bus.target? address width.bytes = some (position, device) ∧
      bus.write address width value = bus.deviceWrite address width value position device) := by
  unfold write
  cases inRam : bus.ram.write? address width value with
  | some ram => exact .inl ⟨ram, rfl, rfl⟩
  | none =>
      cases found : bus.target? address width.bytes with
      | none => exact .inr (.inl ⟨rfl, rfl, rfl⟩)
      | some claim => exact .inr (.inr ⟨claim.1, claim.2, rfl, rfl, rfl⟩)

theorem read_error {bus : Bus δ} {address : UInt64} {width : Width} {kind : AccessKind}
    {cause : OutOfBound} (refused : (bus.read address width kind).result = .error cause) :
    bus.read address width kind = ⟨.error cause, bus, []⟩ := by
  obtain ⟨value, _, shape⟩ | ⟨_, _, shape⟩ | ⟨position, device, _, _, shape⟩ :=
    bus.read_cases address width kind
  · simp [shape] at refused
  · rw [shape] at refused ⊢
    cases refused
    rfl
  · simp [shape, deviceRead] at refused

theorem write_error {bus : Bus δ} {address : UInt64} {width : Width} {value : UInt64}
    {cause : OutOfBound} (refused : (bus.write address width value).result = .error cause) :
    bus.write address width value = ⟨.error cause, bus, []⟩ := by
  obtain ⟨ram, _, shape⟩ | ⟨_, _, shape⟩ | ⟨position, device, _, _, shape⟩ :=
    bus.write_cases address width value
  · simp [shape] at refused
  · rw [shape] at refused ⊢
    cases refused
    rfl
  · simp [shape, deviceWrite] at refused

end HartScope.Bus
