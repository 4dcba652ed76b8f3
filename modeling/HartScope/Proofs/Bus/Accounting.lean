import HartScope.Proofs.Hart.DeviceAccess

/-!
What a bus keeps account of while it serves one request after the other.  An access inside RAM never
gets as far as a device, one that nobody serves leaves no trace, and the flag tells whether a device
has served an access since the flag was last taken.
-/

namespace HartScope

namespace Bus

inductive Request where
  | read (address : UInt64) (width : Width) (kind : AccessKind)
  | write (address : UInt64) (width : Width) (value : UInt64)
  | takeTouched
deriving DecidableEq, Repr

inductive Answer where
  | read (result : Except OutOfBound UInt64)
  | written (result : Except OutOfBound Unit)
  | taken (touched : Bool)

structure Response (δ : Type) where
  answer : Answer
  bus : Bus δ
  output : List Output := []

/-- Where a request accesses memory, and how many bytes. -/
def Request.range? : Request → Option (UInt64 × Nat)
  | read address width _ => some (address, width.bytes)
  | write address width _ => some (address, width.bytes)
  | takeTouched => none

theorem Request.ne_takeTouched {request : Request} {range : UInt64 × Nat}
    (accessed : request.range? = some range) : request ≠ .takeTouched := by
  rintro rfl
  cases accessed

def Answer.isRefusal : Answer → Bool
  | read (.error _) | written (.error _) => true
  | read (.ok _) | written (.ok _) | taken _ => false

end Bus

namespace Memory

/-- All `length` bytes from `address` on are bytes of RAM. -/
def Holds (ram : Memory) (address : UInt64) (length : Nat) : Prop :=
  ram.base.toNat ≤ address.toNat ∧
    address.toNat + length ≤ ram.base.toNat + ram.size.toNat

/-- What RAM by itself answers to an access, and RAM afterwards. -/
def serve? (ram : Memory) : Bus.Request → Option (Bus.Answer × Memory)
  | .read address width _ => (ram.read? address width).map fun value => (.read (.ok value), ram)
  | .write address width value =>
      (ram.write? address width value).map fun after => (.written (.ok ()), after)
  | .takeTouched => none

theorem offset?_isSome_iff (ram : Memory) (address : UInt64) (length : Nat) :
    (ram.offset? address length).isSome = true ↔ ram.Holds address length := by
  have inside : ram.base ≤ address ∧
      address.toNat - ram.base.toNat + length ≤ ram.size.toNat ↔ ram.Holds address length := by
    rw [UInt64.le_iff_toNat_le, Holds]
    omega
  rw [← inside, offset?]
  split <;> simp_all

theorem read?_isSome_iff (ram : Memory) (address : UInt64) (width : Width) :
    (ram.read? address width).isSome = true ↔ ram.Holds address width.bytes := by
  simp [read?, slice?, offset?_isSome_iff]

theorem write?_isSome_iff (ram : Memory) (address : UInt64) (width : Width) (value : UInt64) :
    (ram.write? address width value).isSome = true ↔ ram.Holds address width.bytes := by
  rw [write?_isSome, read?_isSome_iff]

theorem serve?_changed {ram : Memory} {request : Bus.Request} {answer : Bus.Answer} {after : Memory}
    (served : ram.serve? request = some (answer, after)) (changed : after ≠ ram) :
    ∃ address width value, request = .write address width value := by
  cases request with
  | write address width value => exact ⟨address, width, value, rfl⟩
  | read address width kind =>
      obtain ⟨_, _, answered⟩ := Option.map_eq_some_iff.mp served
      exact absurd (Prod.mk.inj answered).2.symm changed
  | takeTouched => cases served

end Memory

variable {δ : Type} [Device δ]

/-- What a device answers to an access at its offset into the window, and the device afterwards.  It
keeps no flag. -/
def Device.serve (device : δ) : Bus.Request → Bus.Answer × δ
  | .read address width _ =>
      let (value, after) := Device.read device width (address - (Device.window device).start)
      (.read (.ok value), after)
  | .write address width value =>
      let (after, _) := Device.write device width (address - (Device.window device).start) value
      (.written (.ok ()), after)
  | .takeTouched => (.taken false, device)

namespace Bus

/-- The request is an access, and all its bytes lie in RAM. -/
def Request.Inside (request : Request) (ram : Memory) : Prop :=
  ∃ range ∈ request.range?, ram.Holds range.1 range.2

def serve (bus : Bus δ) : Request → Response δ
  | .read address width kind =>
      let done := bus.read address width kind
      ⟨.read done.result, done.bus, done.output⟩
  | .write address width value =>
      let done := bus.write address width value
      ⟨.written done.result, done.bus, done.output⟩
  | .takeTouched => ⟨.taken bus.takeTouched.1, bus.takeTouched.2, []⟩

/-- The bus when a sequence of requests has been served. -/
def after (bus : Bus δ) : List Request → Bus δ
  | [] => bus
  | request :: rest => (bus.serve request).bus.after rest

/-- A device on the bus claims the whole range. -/
def Claims (bus : Bus δ) (address : UInt64) (length : Nat) : Prop :=
  ∃ device ∈ bus.devices, (Device.window device).covers address length = true

/-- The request is an access that is left to the devices, and one of them claims it. -/
def ForDevice (bus : Bus δ) (request : Request) : Prop :=
  ∃ range ∈ request.range?, ¬bus.ram.Holds range.1 range.2 ∧ bus.Claims range.1 range.2

/-- A device has served an access since the flag was last taken. -/
def ServedSinceTaken (bus : Bus δ) (requests : List Request) : Prop :=
  ∃ early request late, requests = early ++ request :: late ∧ .takeTouched ∉ late ∧
    (bus.after early).ForDevice request

theorem target?_isSome_iff (bus : Bus δ) (address : UInt64) (length : Nat) :
    (bus.target? address length).isSome = true ↔ bus.Claims address length := by
  constructor
  · intro found
    obtain ⟨⟨position, device⟩, chosen⟩ := Option.isSome_iff_exists.mp found
    obtain ⟨standing, covered⟩ := target?_claims chosen
    exact ⟨device, List.mem_of_getElem? standing, covered⟩
  · rintro ⟨device, attached, covered⟩
    have scanned : (bus.scan? address length).isSome = true :=
      List.findIdx?_isSome.trans (List.any_eq_true.mpr ⟨device, attached, covered⟩)
    have routed : (bus.route? address length).isSome = true := by
      unfold route?
      split
      · split
        · rfl
        · exact scanned
      · exact scanned
    obtain ⟨position, route⟩ := Option.isSome_iff_exists.mp routed
    obtain ⟨server, standing, _⟩ := route?_claims route
    simp [target?, route, standing]

/-- The ways in which a request is answered. -/
inductive Service (bus : Bus δ) (request : Request) : Response δ → Prop where
  | taken (asked : request = .takeTouched) :
      Service bus request ⟨.taken bus.touched, { bus with touched := false }, []⟩
  | ram {address : UInt64} {length : Nat} {answer : Answer} {ram : Memory}
      (range : request.range? = some (address, length)) (inside : bus.ram.Holds address length)
      (served : bus.ram.serve? request = some (answer, ram)) (granted : answer.isRefusal = false) :
      Service bus request ⟨answer, { bus with ram := ram }, []⟩
  | refused {address : UInt64} {length : Nat} {answer : Answer}
      (range : request.range? = some (address, length)) (outside : ¬bus.ram.Holds address length)
      (unclaimed : ¬bus.Claims address length) (refusal : answer.isRefusal = true) :
      Service bus request ⟨answer, bus, []⟩
  | device {address : UInt64} {length position : Nat} {device : δ} {output : List Output}
      (range : request.range? = some (address, length)) (outside : ¬bus.ram.Holds address length)
      (standing : bus.devices[position]? = some device)
      (covered : (Device.window device).covers address length = true)
      (granted : (Device.serve device request).1.isRefusal = false) :
      Service bus request
        ⟨(Device.serve device request).1, bus.served position (Device.serve device request).2, output⟩

theorem serve_service (bus : Bus δ) (request : Request) :
    Service bus request (bus.serve request) := by
  cases request with
  | takeTouched => exact .taken rfl
  | read address width kind =>
      have unclaimed := bus.target?_isSome_iff address width.bytes
      have inRam := bus.ram.read?_isSome_iff address width
      rcases bus.read_cases address width kind with ⟨value, found, shape⟩ |
        ⟨missing, nobody, shape⟩ | ⟨position, device, missing, chosen, shape⟩
      · simp only [serve, shape]
        exact .ram rfl (inRam.mp (by rw [found]; rfl)) (by simp [Memory.serve?, found]) rfl
      · simp only [serve, shape]
        exact .refused rfl (by simp [← inRam, missing]) (by simp [← unclaimed, nobody]) rfl
      · obtain ⟨standing, covered⟩ := target?_claims chosen
        simp only [serve, shape]
        exact .device rfl (by simp [← inRam, missing]) standing covered rfl
  | write address width value =>
      have unclaimed := bus.target?_isSome_iff address width.bytes
      have inRam := bus.ram.write?_isSome_iff address width value
      rcases bus.write_cases address width value with ⟨ram, stored, shape⟩ |
        ⟨missing, nobody, shape⟩ | ⟨position, device, missing, chosen, shape⟩
      · simp only [serve, shape]
        exact .ram rfl (inRam.mp (by rw [stored]; rfl)) (by simp [Memory.serve?, stored]) rfl
      · simp only [serve, shape]
        exact .refused rfl (by simp [← inRam, missing]) (by simp [← unclaimed, nobody]) rfl
      · obtain ⟨standing, covered⟩ := target?_claims chosen
        simp only [serve, shape]
        exact .device rfl (by simp [← inRam, missing]) standing covered rfl

theorem servedSinceTaken_cons (bus : Bus δ) (request : Request) (rest : List Request) :
    bus.ServedSinceTaken (request :: rest) ↔
      (bus.serve request).bus.ServedSinceTaken rest ∨
        bus.ForDevice request ∧ .takeTouched ∉ rest := by
  constructor
  · rintro ⟨early, asked, late, split, untaken, claimed⟩
    cases early with
    | nil =>
        obtain ⟨rfl, rfl⟩ := List.cons.inj split
        exact .inr ⟨claimed, untaken⟩
    | cons first between =>
        obtain ⟨rfl, later⟩ := List.cons.inj split
        exact .inl ⟨between, asked, late, later, untaken, claimed⟩
  · rintro (⟨early, asked, late, rfl, untaken, claimed⟩ | ⟨claimed, untaken⟩)
    · exact ⟨request :: early, asked, late, rfl, untaken, claimed⟩
    · exact ⟨[], request, rest, rfl, untaken, claimed⟩

theorem serve_touched (bus : Bus δ) (request : Request) :
    (bus.serve request).bus.touched = true ↔
      bus.ForDevice request ∨ bus.touched = true ∧ request ≠ .takeTouched := by
  have service := bus.serve_service request
  generalize bus.serve request = response at service ⊢
  cases service with
  | taken asked => simp [asked, ForDevice, Request.range?]
  | ram range inside => simp [ForDevice, range, inside, Request.ne_takeTouched range]
  | refused range _ unclaimed => simp [ForDevice, range, unclaimed, Request.ne_takeTouched range]
  | device range outside standing covered =>
      have claimed : bus.ForDevice request :=
        ⟨_, range, outside, _, List.mem_of_getElem? standing, covered⟩
      simp [served, claimed]

/-- The flag remembers whatever a device has served, until it is taken. -/
theorem after_touched (bus : Bus δ) (requests : List Request) :
    (bus.after requests).touched = true ↔
      bus.ServedSinceTaken requests ∨ bus.touched = true ∧ .takeTouched ∉ requests := by
  induction requests generalizing bus with
  | nil => simp [after, ServedSinceTaken]
  | cons request rest ih =>
      rw [after, ih, serve_touched, servedSinceTaken_cons, List.mem_cons]
      grind

/-- How one request is accounted for. -/
structure Accounts (bus : Bus δ) (request : Request) (response : Response δ) : Prop where
  inside_ram : request.Inside bus.ram →
    ∃ answer ram, bus.ram.serve? request = some (answer, ram) ∧ answer.isRefusal = false ∧
      response = ⟨answer, { bus with ram := ram }, []⟩
  for_device : bus.ForDevice request →
    response.answer.isRefusal = false ∧ ∃ position device,
      bus.devices[position]? = some device ∧
      (∀ range ∈ request.range?, (Device.window device).covers range.1 range.2 = true) ∧
      response.answer = (Device.serve device request).1 ∧
      response.bus = bus.served position (Device.serve device request).2
  refused_iff : response.answer.isRefusal = true ↔
    request ≠ .takeTouched ∧ ¬request.Inside bus.ram ∧ ¬bus.ForDevice request
  refused : response.answer.isRefusal = true → response.bus = bus ∧ response.output = []
  ram_changed : response.bus.ram ≠ bus.ram →
    ∃ address width value, request = .write address width value ∧
      bus.ram.Holds address width.bytes

theorem serve_accounts (bus : Bus δ) (request : Request) :
    Accounts bus request (bus.serve request) := by
  have service := bus.serve_service request
  generalize bus.serve request = response at service ⊢
  cases service with
  | taken asked =>
      subst asked
      have elsewhere : ¬Request.takeTouched.Inside bus.ram := by simp [Request.Inside, Request.range?]
      have unclaimed : ¬bus.ForDevice .takeTouched := by simp [ForDevice, Request.range?]
      exact
        { inside_ram := fun inside => absurd inside elsewhere
          for_device := fun claimed => absurd claimed unclaimed
          refused_iff := by simp [Answer.isRefusal]
          refused := nofun
          ram_changed := fun changed => absurd rfl changed }
  | ram range inside served granted =>
      have unclaimed : ¬bus.ForDevice request := by simp [ForDevice, range, inside]
      have within : request.Inside bus.ram := ⟨_, range, inside⟩
      exact
        { inside_ram := fun _ => ⟨_, _, served, granted, rfl⟩
          for_device := fun claimed => absurd claimed unclaimed
          refused_iff := by simp [granted, within]
          refused := by simp [granted]
          ram_changed := by
            intro changed
            obtain ⟨address, width, value, rfl⟩ := Memory.serve?_changed served changed
            cases range
            exact ⟨_, _, _, rfl, inside⟩ }
  | refused range outside nobody refusal =>
      have elsewhere : ¬request.Inside bus.ram := by simp [Request.Inside, range, outside]
      have unclaimed : ¬bus.ForDevice request := by simp [ForDevice, range, nobody]
      exact
        { inside_ram := fun inside => absurd inside elsewhere
          for_device := fun claimed => absurd claimed unclaimed
          refused_iff := iff_of_true refusal ⟨Request.ne_takeTouched range, elsewhere, unclaimed⟩
          refused := fun _ => ⟨rfl, rfl⟩
          ram_changed := fun changed => absurd rfl changed }
  | device range outside standing covered granted =>
      have elsewhere : ¬request.Inside bus.ram := by simp [Request.Inside, range, outside]
      have claimed : bus.ForDevice request :=
        ⟨_, range, outside, _, List.mem_of_getElem? standing, covered⟩
      exact
        { inside_ram := fun inside => absurd inside elsewhere
          for_device := fun _ =>
            ⟨granted, _, _, standing, by simpa [range] using covered, rfl, rfl⟩
          refused_iff := by simp [granted, claimed]
          refused := by simp [granted]
          ram_changed := fun changed => absurd rfl changed }

/-- Each request of a sequence is accounted for, whatever the devices are and do, and taking the flag
tells whether one of them has served an access since it was last taken. -/
theorem requests_accounted (bus : Bus δ) (earlier : List Request) :
    (∀ request, Accounts (bus.after earlier) request ((bus.after earlier).serve request)) ∧
      (((bus.after earlier).serve .takeTouched).answer = .taken true ↔
        bus.ServedSinceTaken earlier ∨ bus.touched = true ∧ .takeTouched ∉ earlier) := by
  refine ⟨serve_accounts _, ?_⟩
  rw [← after_touched]
  simp [serve, takeTouched]

end Bus

end HartScope
