import HartScope.Proofs.Bus.Windows
import HartScope.Proofs.Device.Bytewise
import HartScope.Proofs.Memory.Same

/-!
Devices that store bytes.  Since a wide access is no more than the accesses to its bytes, such a device
answers accesses to its window, whatever their widths, as RAM does that stands in the place of the
window and holds the same bytes, by itself and on a bus.
-/

namespace HartScope

namespace Memory

theorem read?_of_offset? {ram : Memory} {address : UInt64} {width : Width} {offset : Nat}
    (found : ram.offset? address width.bytes = some offset) :
    ram.read? address width = some (UInt64.ofNat
      (LittleEndian.toNat ((List.range width.bytes).map fun i => ram.byte (offset + i)))) := by
  rw [read?, slice?, found]
  rfl

theorem serve?_place {ram after : Memory} {request : Bus.Request} {answer : Bus.Answer}
    (served : ram.serve? request = some (answer, after)) :
    after.base = ram.base ∧ after.size = ram.size := by
  cases request with
  | read address width kind =>
      obtain ⟨_, _, answered⟩ := Option.map_eq_some_iff.mp served
      cases answered
      exact ⟨rfl, rfl⟩
  | write address width value =>
      obtain ⟨_, written, answered⟩ := Option.map_eq_some_iff.mp served
      cases answered
      exact load?_place written
  | takeTouched => cases served

end Memory

namespace Device

variable {δ : Type} [Device δ]

def answers (device : δ) : List Bus.Request → List Bus.Answer
  | [] => []
  | request :: later => (serve device request).1 :: answers (serve device request).2 later

/-- The window stays and holds these bytes. -/
structure Becomes (content : δ → Nat → UInt8) (before after : δ) (bytes : Nat → UInt8) : Prop where
  window : Device.window after = Device.window before
  bytes : ∀ i < (Device.window before).size.toNat, content after i = bytes i

/-- The device stores bytes.  For each offset into its window a byte read tells the byte there and a byte
write replaces it, and neither of them changes another byte or the window. -/
structure Stores (content : δ → Nat → UInt8) : Prop where
  told {device : δ} {offset : UInt64} (inside : offset.toNat < (Device.window device).size.toNat) :
    (Device.readByte device offset).1 = content device offset.toNat
  kept {device : δ} {offset : UInt64} (inside : offset.toNat < (Device.window device).size.toNat) :
    Becomes content device (Device.readByte device offset).2 (content device)
  replaced {device : δ} {offset : UInt64} (byte : UInt8)
    (inside : offset.toNat < (Device.window device).size.toNat) :
    Becomes content device (Device.writeByte device offset byte).1 fun i =>
      if i = offset.toNat then byte else content device i

/-- RAM stands in the place of the device's window and holds the bytes of the device. -/
structure Mirrors (content : δ → Nat → UInt8) (device : δ) (ram : Memory) : Prop where
  window : Device.window device = ⟨ram.base, ram.size⟩
  bytes : ∀ i < ram.size.toNat, content device i = ram.byte i

variable {content : δ → Nat → UInt8}

theorem Becomes.trans {before between after : δ} {earlier later : Nat → UInt8}
    (first : Becomes content before between earlier)
    (second : Becomes content between after later) : Becomes content before after later :=
  ⟨second.window.trans first.window, fun i bound => second.bytes i (first.window ▸ bound)⟩

namespace Stores

/-- Reading bytes from an offset on tells those bytes and changes none. -/
theorem readEach (stores : Stores content) {count : Nat} {device : δ} {start : Nat}
    (inside : start + count ≤ (Device.window device).size.toNat) :
    (Device.readEach Device.readByte device (offsets start count)).1 =
        (List.range count).map (fun i => content device (start + i)) ∧
      Becomes content device (Device.readEach Device.readByte device (offsets start count)).2
        (content device) := by
  induction count generalizing device start with
  | zero => exact ⟨rfl, rfl, fun _ _ => rfl⟩
  | succ count ih =>
      have size := (Device.window device).size.toNat_lt
      have place : (UInt64.ofNat start).toNat = start :=
        UInt64.toNat_ofNat_of_lt' (by unfold UInt64.size; omega)
      have first : (UInt64.ofNat start).toNat < (Device.window device).size.toNat := by omega
      have kept := stores.kept first
      -- The bytes behind are read from the device as this read has left it.
      obtain ⟨bytes, later⟩ := ih (show start + 1 + count ≤ _ by rw [kept.window]; omega)
      rw [offsets_succ, readEach_cons]
      refine ⟨?_, kept.trans ⟨later.window, fun i bound => ?_⟩⟩
      · rw [List.range_succ_eq_map, List.map_cons, List.map_map, stores.told first, bytes, place]
        refine congrArg _ (List.map_congr_left fun i member => ?_)
        have bound := List.mem_range.mp member
        rw [kept.bytes _ (by omega), Nat.add_right_comm, Nat.add_assoc]
        rfl
      · exact (later.bytes i bound).trans (kept.bytes i (kept.window ▸ bound))

/-- Writing bytes from an offset on replaces those bytes alone. -/
theorem writeEach (stores : Stores content) {bytes : List UInt8} {device : δ} {start : Nat}
    (inside : start + bytes.length ≤ (Device.window device).size.toNat) :
    Becomes content device
      (Device.writeEach Device.writeByte device ((offsets start bytes.length).zip bytes)).1 fun i =>
        if start ≤ i ∧ i < start + bytes.length then bytes[i - start]?.getD 0
        else content device i := by
  induction bytes generalizing device start with
  | nil => exact ⟨rfl, fun i _ => (if_neg (by simp)).symm⟩
  | cons byte rest ih =>
      rw [List.length_cons] at inside
      have size := (Device.window device).size.toNat_lt
      have place : (UInt64.ofNat start).toNat = start :=
        UInt64.toNat_ofNat_of_lt' (by unfold UInt64.size; omega)
      have first : (UInt64.ofNat start).toNat < (Device.window device).size.toNat := by omega
      have replaced := stores.replaced byte first
      have later := ih (show start + 1 + rest.length ≤ _ by rw [replaced.window]; omega)
      rw [List.length_cons, offsets_succ, List.zip_cons_cons, writeEach_cons]
      refine replaced.trans ⟨later.window, fun i bound => ?_⟩
      rw [later.bytes i bound, replaced.bytes i (replaced.window ▸ bound), place]
      by_cases here : i = start
      · subst here
        simp
      · by_cases behind : start + 1 ≤ i ∧ i < start + 1 + rest.length
        · have index : i - start = i - (start + 1) + 1 := by omega
          rw [if_pos behind, if_pos (by omega), index, List.getElem?_cons_succ]
        · rw [if_neg behind, if_neg here, if_neg (by omega)]

variable [Bytewise δ] {device : δ} {width : Width} {offset : UInt64}

theorem read (stores : Stores content)
    (inside : offset.toNat + width.bytes ≤ (Device.window device).size.toNat) :
    (Device.read device width offset).1 = UInt64.ofNat (LittleEndian.toNat
        ((List.range width.bytes).map fun i => content device (offset.toNat + i))) ∧
      Becomes content device (Device.read device width offset).2 (content device) := by
  obtain ⟨told, kept⟩ := stores.readEach inside
  have within := Nat.le_trans inside (Nat.le_of_lt (Device.window device).size.toNat_lt)
  rw [Device.read, (reads_each device within).result]
  exact ⟨congrArg (UInt64.ofNat ∘ LittleEndian.toNat) told, kept⟩

theorem write (stores : Stores content) (value : UInt64)
    (inside : offset.toNat + width.bytes ≤ (Device.window device).size.toNat) :
    Becomes content device (Device.write device width offset value).1 fun i =>
      if offset.toNat ≤ i ∧ i < offset.toNat + width.bytes then
        (LittleEndian.ofNat width.bytes value.toNat)[i - offset.toNat]?.getD 0
      else content device i := by
  have within := Nat.le_trans inside (Nat.le_of_lt (Device.window device).size.toNat_lt)
  have length := LittleEndian.ofNat_length width.bytes value.toNat
  rw [← length] at inside
  have written := stores.writeEach inside
  rw [length] at written
  rwa [Device.write, (writes_each device value within).result]

end Stores

/-- An access to the window is answered alike, and leaves the same bytes. -/
theorem Mirrors.serve [Bytewise δ] {device : δ} {ram : Memory} {request : Bus.Request}
    (mirrors : Mirrors content device ram) (stores : Stores content)
    (inside : request.Inside ram) :
    ∃ after, ram.serve? request = some ((serve device request).1, after) ∧
      Mirrors content (serve device request).2 after := by
  obtain ⟨⟨address, length⟩, accessed, held⟩ := inside
  obtain ⟨offset, found⟩ := Option.isSome_iff_exists.mp ((ram.offset?_isSome_iff ..).mpr held)
  obtain ⟨lower, distance, bound⟩ := Memory.offset?_bound found
  have start : (Device.window device).start = ram.base := congrArg Window.start mirrors.window
  have size : (Device.window device).size = ram.size := congrArg Window.size mirrors.window
  have place : (address - (Device.window device).start).toNat = offset := by
    rw [start, UInt64.toNat_sub_of_le _ _ lower, distance]
  have within : (address - (Device.window device).start).toNat + length ≤
      (Device.window device).size.toNat := by
    rw [place, size]
    exact bound
  cases request with
  | takeTouched => cases accessed
  | read address width kind =>
      cases accessed
      obtain ⟨told, kept⟩ := stores.read within
      have bytes : (List.range width.bytes).map (fun i => content device (offset + i)) =
          (List.range width.bytes).map fun i => ram.byte (offset + i) := by
        refine List.map_congr_left fun i member => mirrors.bytes _ ?_
        have early := List.mem_range.mp member
        omega
      rw [place, bytes] at told
      refine ⟨ram, ?_, kept.window.trans mirrors.window, fun i bounded => ?_⟩
      · rw [Memory.serve?, Memory.read?_of_offset? found, ← told]
        rfl
      · exact (kept.bytes i (size ▸ bounded)).trans (mirrors.bytes i bounded)
  | write address width value =>
      cases accessed
      obtain ⟨after, written⟩ := Option.isSome_iff_exists.mp
        ((ram.write?_isSome_iff address width value).mpr held)
      have stored := stores.write value within
      rw [place] at stored
      have length := LittleEndian.ofNat_length width.bytes value.toNat
      have kept := Memory.load?_place written
      refine ⟨after, ?_, ?_, fun i bounded => ?_⟩
      · rw [Memory.serve?, written]
        rfl
      · exact stored.window.trans (by rw [mirrors.window, kept.1, kept.2])
      · rw [kept.2] at bounded
        have replaced := Memory.load?_byte written (length.symm ▸ found) bounded
        rw [length, ← mirrors.bytes i bounded] at replaced
        exact (stored.bytes i (size ▸ bounded)).trans replaced.symm

end Device

namespace Bus

theorem Request.Inside.of_place {request : Request} {ram after : Memory}
    (inside : request.Inside ram) (base : after.base = ram.base) (size : after.size = ram.size) :
    request.Inside after := by
  unfold Inside Memory.Holds
  rwa [base, size]

variable {δ : Type} [Device δ]

def answers (bus : Bus δ) : List Request → List Answer
  | [] => []
  | request :: later => (bus.serve request).answer :: (bus.serve request).bus.answers later

theorem serve_of_ram {bus : Bus δ} {request : Request} {answer : Answer} {after : Memory}
    (served : bus.ram.serve? request = some (answer, after)) :
    bus.serve request = ⟨answer, { bus with ram := after }, []⟩ := by
  rw [serve_eq_serveVia]
  cases request with
  | takeTouched => cases served
  | read address width kind => simp only [serveVia, Request.range?, served]
  | write address width value => simp only [serveVia, Request.range?, served]

theorem deliver_eq (bus : Bus δ) (position : Nat) (device : δ) {request : Request}
    {address : UInt64} {length : Nat} (range : request.range? = some (address, length)) :
    (bus.deliver position device (address - (Device.window device).start) request).answer =
        (Device.serve device request).1 ∧
      (bus.deliver position device (address - (Device.window device).start) request).bus =
        bus.served position (Device.serve device request).2 := by
  cases request with
  | takeTouched => cases range
  | read address width kind =>
      cases range
      exact ⟨rfl, rfl⟩
  | write address width value =>
      cases range
      exact ⟨rfl, rfl⟩

end Bus

namespace Device

variable {δ : Type} [Device δ] [Bytewise δ] {content : δ → Nat → UInt8} {device : δ} {ram : Memory}
  {requests : List Bus.Request}

theorem Mirrors.answers (mirrors : Mirrors content device ram) (stores : Stores content)
    (inside : ∀ request ∈ requests, request.Inside ram) :
    Device.answers device requests = ({ ram := ram } : Bus δ).answers requests := by
  induction requests generalizing device ram with
  | nil => rfl
  | cons request later ih =>
      rw [List.forall_mem_cons] at inside
      obtain ⟨after, served, next⟩ := mirrors.serve stores inside.1
      have place := Memory.serve?_place served
      have rest := ih next fun request member =>
        (inside.2 request member).of_place place.1 place.2
      rw [Device.answers, Bus.answers, Bus.serve_of_ram served, rest]

/-- On a bus the accesses to the window that RAM does not serve itself are the device's to answer. -/
theorem Mirrors.bus_answers {bus : Bus δ} {position : Nat} (mirrors : Mirrors content device ram)
    (stores : Stores content) (reserved : bus.Reserved position device)
    (inside : ∀ request ∈ requests, request.Inside ram)
    (outside : ∀ request ∈ requests, ¬request.Inside bus.ram) :
    bus.answers requests = Device.answers device requests := by
  induction requests generalizing bus device ram with
  | nil => rfl
  | cons request later ih =>
      rw [List.forall_mem_cons] at inside outside
      obtain ⟨after, served, next⟩ := mirrors.serve stores inside.1
      have place := Memory.serve?_place served
      obtain ⟨⟨address, length⟩, range, held⟩ := inside.1
      have contained : (Device.window device).Contains address length := mirrors.window ▸ held
      have apart : ¬bus.ram.Holds address length := fun held => outside.1 ⟨_, range, held⟩
      have window : Device.window (Device.serve device request).2 = Device.window device := by
        rw [next.window, mirrors.window, place.1, place.2]
      obtain ⟨answer, moved⟩ := bus.deliver_eq position device range
      -- The bus goes on with the device as this access has left it, in the same place.
      have rest := ih next (reserved.served window)
        (fun request member => (inside.2 request member).of_place place.1 place.2) outside.2
      rw [Bus.answers, Device.answers, reserved.serve_eq range contained apart, answer, moved, rest]

/-- Wide accesses of a device that leaves them as they are by default are compositions of its byte
accesses, whatever these do, or overflow if they have a byte behind the last offset.  If the byte
accesses store bytes, the device answers accesses to its window as RAM would that holds these bytes,
both by itself and on a bus. -/
theorem default_accesses_compose {δ : Type} [Device δ] [Bytewise δ] :
    (∀ (device : δ) (width : Width) (offset : UInt64),
      (offset.toNat + width.bytes ≤ UInt64.size → ReadsEach device width offset ∧
        ∀ value, WritesEach device width offset value) ∧
      (UInt64.size < offset.toNat + width.bytes → Device.read? device width offset = none ∧
        ∀ value, Device.write? device width offset value = none)) ∧
    ∀ (content : δ → Nat → UInt8) (device : δ) (ram : Memory) (requests : List Bus.Request),
      Stores content → Mirrors content device ram → (∀ request ∈ requests, request.Inside ram) →
        Device.answers device requests = ({ ram := ram } : Bus δ).answers requests ∧
        ∀ (bus : Bus δ) (position : Nat), bus.Reserved position device →
          (∀ request ∈ requests, ¬request.Inside bus.ram) →
            bus.answers requests = ({ ram := ram } : Bus δ).answers requests := by
  refine ⟨fun device width offset => ⟨fun within => ?_, fun beyond => ?_⟩,
    fun content device ram requests stores mirrors inside => ?_⟩
  · exact ⟨reads_each device within, fun value => writes_each device value within⟩
  · exact ⟨read?_eq_none device beyond, fun value => write?_eq_none device value beyond⟩
  · have alone := mirrors.answers stores inside
    exact ⟨alone, fun bus position reserved outside =>
      (mirrors.bus_answers stores reserved inside outside).trans alone⟩

/-- Eight bytes of storage that count how often they are read. -/
structure Scratch where
  bytes : Vector UInt8 8
  reads : Nat := 0

namespace Scratch

instance : Device Scratch where
  name _ := "scratch"
  window _ := ⟨0xA1000000, 8⟩
  readByte scratch offset :=
    (scratch.bytes[offset.toNat]?.getD 0, { scratch with reads := scratch.reads + 1 })
  writeByte scratch offset byte :=
    ({ scratch with bytes := scratch.bytes.setIfInBounds offset.toNat byte }, [])

instance : Bytewise Scratch where
  read? _ _ _ := rfl
  write? _ _ _ _ := rfl

def byte (scratch : Scratch) (offset : Nat) : UInt8 :=
  scratch.bytes[offset]?.getD 0

theorem stores : Stores byte where
  told _ := rfl
  kept _ := ⟨rfl, fun _ _ => rfl⟩
  replaced {device offset} value inside := by
    refine ⟨rfl, fun i _ => ?_⟩
    have present : offset.toNat < 8 := inside
    change (device.bytes.setIfInBounds offset.toNat value)[i]?.getD 0 = _
    rw [Vector.getElem?_setIfInBounds]
    by_cases same : offset.toNat = i
    · rw [if_pos same, if_pos present, if_pos same.symm]
      rfl
    · rw [if_neg same, if_neg (Ne.symm same)]
      rfl

def blank : Scratch where
  bytes := Vector.replicate 8 0

/-- Accesses of every width.  Each read spans bytes of different writes. -/
def accesses : List Bus.Request :=
  [.write 0xA1000001 .word 0x44332211, .write 0xA1000004 .half 0xBEEF, .write 0xA1000003 .byte 0x77,
    .read 0xA1000002 .half .read, .read 0xA1000000 .double .read]

def besideRam : Bus Scratch where
  ram := Memory.new 0x80000000 64
  devices := [blank]

theorem scratch_answers_as_ram :
    Stores byte ∧ Mirrors byte blank (Memory.new 0xA1000000 8) ∧
    (∀ request ∈ accesses, request.Inside (Memory.new 0xA1000000 8)) ∧
    besideRam.Reserved 0 blank ∧ (∀ request ∈ accesses, ¬request.Inside besideRam.ram) ∧
    ReadsEach blank .double 0 ∧ WritesEach blank .word 1 0x44332211 ∧
    Device.answers blank accesses =
      ({ ram := Memory.new 0xA1000000 8 } : Bus Scratch).answers accesses ∧
    besideRam.answers accesses = [.written (.ok ()), .written (.ok ()), .written (.ok ()),
      .read (.ok 0x7722), .read (.ok 0x0000BEEF77221100)] := by
  have mirrors : Mirrors byte blank (Memory.new 0xA1000000 8) := by
    refine ⟨rfl, fun i bound => ?_⟩
    have present : i < 8 := bound
    rw [byte, blank, Vector.getElem?_replicate, if_pos present]
    exact (Cells.get_uniform _ 0 i).symm
  have inside : ∀ request ∈ accesses, request.Inside (Memory.new 0xA1000000 8) := by
    unfold Bus.Request.Inside Memory.Holds
    decide
  have reserved : besideRam.Reserved 0 blank := by
    refine ⟨rfl, by decide, fun other neighbour elsewhere standing => ?_⟩
    match other, elsewhere, standing with
    | other + 1, _, standing => cases standing
  have outside : ∀ request ∈ accesses, ¬request.Inside besideRam.ram := by
    unfold Bus.Request.Inside Memory.Holds
    decide
  obtain ⟨accessed, serves⟩ := @default_accesses_compose Scratch _ _
  obtain ⟨reads, _⟩ := (accessed blank .double 0).1 (by decide)
  obtain ⟨_, writes⟩ := (accessed blank .word 1).1 (by decide)
  obtain ⟨alone, onBus⟩ := serves byte blank (Memory.new 0xA1000000 8) accesses stores mirrors inside
  refine ⟨stores, mirrors, inside, reserved, outside, reads, writes _, alone, ?_⟩
  rw [onBus besideRam 0 reserved outside]
  rfl

/-- A half word at the last offset has no second byte. -/
theorem half_at_last_offset_overflows :
    ¬∀ (scratch : Scratch) (width : Width) (offset : UInt64), ReadsEach scratch width offset := by
  intro composed
  have overflow : Device.read? blank .half 0xFFFFFFFFFFFFFFFF = none := rfl
  have answered := (composed blank .half 0xFFFFFFFFFFFFFFFF).result
  rw [overflow] at answered
  cases answered

end Scratch

end Device

end HartScope
