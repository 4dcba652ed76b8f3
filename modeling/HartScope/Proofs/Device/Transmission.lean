import HartScope.Proofs.Bus.Hint
import HartScope.Proofs.Device.Bytewise
import HartScope.Proofs.Memory.Stores

/-!
What the serial line does with the stores to its window.  Each store that starts at the data register
adds one byte to the line, whatever its width, and no other store adds any.  What has gone to the host
and what the line still holds are together always the bytes of the line in order.
-/

namespace HartScope

namespace Serial

/-- What the line holds back: less than makes it send, and no newline. -/
structure Held (serial : Serial) : Prop where
  room : serial.buffer.size < capacity
  unended : newline ∉ serial.buffer

theorem held_of_empty {serial : Serial} (empty : serial.buffer = #[]) : serial.Held where
  room := by
    rw [empty]
    decide
  unended := by
    rw [empty]
    exact Array.not_mem_empty newline

variable {serial : Serial}

/-- The byte is sent behind those that the line held back, or held back behind them. -/
theorem transmit_stream (serial : Serial) (byte : UInt8) :
    (serial.transmit byte).2 ++ (serial.transmit byte).1.buffer.toList =
      serial.buffer.toList ++ [byte] := by
  simp only [transmit]
  split
  · simp
  · simp

theorem Held.transmit (held : serial.Held) (byte : UInt8) : (serial.transmit byte).1.Held := by
  simp only [Serial.transmit]
  split
  · exact held_of_empty rfl
  · rename_i kept
    rw [not_or, Nat.not_le] at kept
    refine ⟨kept.2, fun member => ?_⟩
    rcases Array.mem_push.mp member with before | same
    · exact held.unended before
    · exact kept.1 same.symm

theorem writeByte_stream (serial : Serial) (offset : UInt64) (byte : UInt8) :
    (serial.writeByte offset byte).2 ++ (serial.writeByte offset byte).1.buffer.toList =
      serial.buffer.toList ++ if offset = 0 then [byte] else [] := by
  unfold writeByte
  split
  · exact serial.transmit_stream byte
  · simp

theorem Held.writeByte (held : serial.Held) (offset : UInt64) (byte : UInt8) :
    (serial.writeByte offset byte).1.Held := by
  unfold Serial.writeByte
  split
  · exact held.transmit byte
  · exact held

/-- Bytes stored behind the data register are lost. -/
theorem writeEach_eq_of_ne_zero (serial : Serial) {writes : List (UInt64 × UInt8)}
    (elsewhere : ∀ write ∈ writes, write.1 ≠ 0) :
    Device.writeEach writeByte serial writes = (serial, []) := by
  induction writes with
  | nil => rfl
  | cons write later ih =>
      rw [List.forall_mem_cons] at elsewhere
      have lost : serial.writeByte write.1 write.2 = (serial, []) := if_neg elsewhere.1
      rw [Device.writeEach_cons, lost, ih elsewhere.2]
      rfl

/-- Of bytes stored from an offset on only the first can be for the data register. -/
theorem writeWide?_eq (serial : Serial) {width : Width} {offset : UInt64} (value : UInt64)
    (within : offset.toNat + width.bytes ≤ 8) :
    Device.writeWide? writeByte serial width offset value =
      some (serial.writeByte offset value.toUInt8) := by
  obtain ⟨rest, count⟩ := Nat.exists_eq_succ_of_ne_zero width.bytes_pos.ne'
  have small : offset.toNat + width.bytes ≤ UInt64.size := Nat.le_trans within (by decide)
  have later (serial : Serial) :
      Device.writeEach writeByte serial ((Device.offsets (offset.toNat + 1) rest).zip
        (LittleEndian.ofNat rest (value.toNat / 256))) = (serial, []) := by
    refine serial.writeEach_eq_of_ne_zero fun write member => ?_
    have place : write.1.toNat ∈ List.range' (offset.toNat + 1) rest := by
      rw [← Device.offsets_toNat (by omega)]
      exact List.mem_map_of_mem (List.of_mem_zip member).1
    have behind := (List.mem_range'_1.mp place).1
    intro zero
    rw [zero] at behind
    cases behind
  rw [Device.writeWide?_eq, if_pos small, count, LittleEndian.ofNat, Device.offsets_succ,
    List.zip_cons_cons, Device.writeEach_cons, later, UInt64.ofNat_toNat, List.append_nil]
  rfl

/-- Within the window a store is the store of its low byte, whatever its width. -/
theorem write?_eq_writeByte (serial : Serial) {width : Width} {offset : UInt64} (value : UInt64)
    (within : offset.toNat + width.bytes ≤ 8) :
    serial.write? width offset value = some (serial.writeByte offset value.toUInt8) := by
  cases width with
  | byte | half => exact serial.writeWide?_eq value within
  | word | double => rfl

theorem write_eq_writeByte (serial : Serial) {width : Width} {offset : UInt64} (value : UInt64)
    (within : offset.toNat + width.bytes ≤ 8) :
    Device.write serial width offset value = serial.writeByte offset value.toUInt8 := by
  change (serial.write? width offset value).getD (serial, []) = _
  rw [serial.write?_eq_writeByte value within, Option.getD_some]

theorem write_stream (serial : Serial) {width : Width} {offset : UInt64} (value : UInt64)
    (within : offset.toNat + width.bytes ≤ 8) :
    (Device.write serial width offset value).2 ++
        (Device.write serial width offset value).1.buffer.toList =
      serial.buffer.toList ++ if offset = 0 then [value.toUInt8] else [] := by
  rw [serial.write_eq_writeByte value within]
  exact serial.writeByte_stream offset value.toUInt8

theorem Held.write (held : serial.Held) {width : Width} {offset : UInt64} (value : UInt64)
    (within : offset.toNat + width.bytes ≤ 8) : (Device.write serial width offset value).1.Held := by
  rw [serial.write_eq_writeByte value within]
  exact held.writeByte offset value.toUInt8

/-- The bytes that stores add to a line: the low one of each store to its data register. -/
def transmitted (base : UInt64) (stores : List Store) : List UInt8 :=
  (stores.filter (·.address = base)).map (·.value.toUInt8)

theorem transmitted_cons (base : UInt64) (store : Store) (later : List Store) :
    transmitted base (store :: later) =
      (if store.address - base = 0 then [store.value.toUInt8] else []) ++ transmitted base later := by
  have first : store.address - base = 0 ↔ store.address = base := by
    rw [UInt64.sub_eq_iff_eq_add, UInt64.zero_add]
  by_cases same : store.address = base
  · simp [transmitted, same]
  · simp [transmitted, first, same]

end Serial

namespace Bus

/-- Stores one after the other, up to the first that is refused. -/
def storeAll {δ : Type} [Device δ] (bus : Bus δ) : List Store → Transaction δ Unit
  | [] => ⟨.ok (), bus, []⟩
  | store :: later =>
      match bus.write store.address store.width store.value with
      | ⟨.error fault, after, output⟩ => ⟨.error fault, after, output⟩
      | ⟨.ok (), after, output⟩ =>
          let rest := after.storeAll later
          { rest with output := output ++ rest.output }

variable {ε : Type} [Device ε] {bus : Bus (Serial ⊕ ε)} {position : Nat} {serial : Serial}

/-- The line stands on the bus, its window does not wrap, and no other device lets an access through
that its window lets through. -/
structure Attached (bus : Bus (Serial ⊕ ε)) (position : Nat) (serial : Serial) : Prop where
  standing : bus.devices[position]? = some (.inl serial)
  bounded : (Device.window serial).Bounded
  alone : ∀ other device, other ≠ position → bus.devices[other]? = some device →
    (Device.window device).Apart (Device.window serial)

namespace Attached

theorem reserved (attached : bus.Attached position serial) : bus.Reserved position (.inl serial) :=
  ⟨attached.standing, attached.bounded, attached.alone⟩

theorem served (attached : bus.Attached position serial) {after : Serial}
    (base : after.base = serial.base) :
    (bus.served position (.inl after)).Attached position after := by
  have window : Device.window after = Device.window serial := congrArg (Window.mk · 8) base
  have kept : (bus.served position (.inl after)).Reserved position (.inl after) :=
    attached.reserved.served window
  exact ⟨kept.standing, kept.bounded, kept.alone⟩

/-- A store to the window goes to the line, at its offset into the window. -/
theorem write_eq (attached : bus.Attached position serial) {address : UInt64} {width : Width}
    (inside : (Device.window serial).Contains address width.bytes)
    (outside : ¬bus.ram.Holds address width.bytes) (value : UInt64) :
    bus.write address width value =
      ⟨.ok (), bus.served position (.inl (Device.write serial width (address - serial.base) value).1),
        [.serial (Device.write serial width (address - serial.base) value).2,
          .log (.deviceWrite address value "serial")]⟩ := by
  have chosen := attached.reserved.target?_eq width.bytes_pos inside
  rcases bus.write_cases address width value with ⟨ram, stored, _⟩ | ⟨_, nobody, _⟩ |
    ⟨other, device, _, found, shape⟩
  · exact absurd ((Memory.write?_isSome_iff ..).mp (by rw [stored]; rfl)) outside
  · rw [chosen] at nobody
    cases nobody
  · rw [chosen] at found
    cases found
    rw [shape, Bus.deviceWrite, Device.write_inl]
    rfl

end Attached

/-- What stores to the window of a line do to the bus on which it stands, and to the line: all of them
are served, and neither RAM nor another device changes. -/
structure Transmits (bus : Bus (Serial ⊕ ε)) (position : Nat) (serial : Serial)
    (stores : List Store) (after : Serial) : Prop where
  served : (bus.storeAll stores).result = .ok ()
  devices : (bus.storeAll stores).bus.devices = bus.devices.set position (.inl after)
  ram : (bus.storeAll stores).bus.ram = bus.ram
  /-- What has been sent and what is held back are the bytes of the line in order. -/
  stream : Output.serialBytes (bus.storeAll stores).output ++ after.buffer.toList =
    serial.buffer.toList ++ Serial.transmitted serial.base stores
  held : after.Held

theorem storeAll_nil {δ : Type} [Device δ] (bus : Bus δ) :
    bus.storeAll [] = ⟨.ok (), bus, []⟩ := rfl

theorem storeAll_cons {δ : Type} [Device δ] {bus after : Bus δ} {store : Store}
    {output : List Output}
    (written : bus.write store.address store.width store.value = ⟨.ok (), after, output⟩)
    (later : List Store) :
    bus.storeAll (store :: later) =
      { after.storeAll later with output := output ++ (after.storeAll later).output } := by
  rw [storeAll, written]

theorem serialBytes_append (first second : List Output) :
    Output.serialBytes (first ++ second) = Output.serialBytes first ++ Output.serialBytes second :=
  List.flatMap_append

theorem exists_transmits {stores : List Store} (attached : bus.Attached position serial)
    (held : serial.Held)
    (inside : ∀ store ∈ stores, (Device.window serial).Contains store.address store.width.bytes)
    (outside : ∀ store ∈ stores, ¬bus.ram.Holds store.address store.width.bytes) :
    ∃ after, Transmits bus position serial stores after := by
  -- Each store leaves the line standing on the bus, in its new state, so the bus varies, too.
  induction stores generalizing bus serial with
  | nil =>
      obtain ⟨present, standing⟩ := List.getElem?_eq_some_iff.mp attached.standing
      refine ⟨serial, rfl, ?_, rfl, ?_, held⟩
      · rw [storeAll_nil, ← standing, List.set_getElem_self]
      · simp [storeAll_nil, Output.serialBytes, Serial.transmitted]
  | cons store later ih =>
      rw [List.forall_mem_cons] at inside outside
      have within : (store.address - serial.base).toNat + store.width.bytes ≤ 8 := inside.1.offset
      have written := attached.write_eq inside.1 outside.1 store.value
      have stream := serial.write_stream store.value within
      have base := serial.write_base store.width (store.address - serial.base) store.value
      have next := held.write store.value within
      generalize Device.write serial store.width (store.address - serial.base) store.value = sent
        at written stream base next
      have window : Device.window sent.1 = Device.window serial := congrArg (Window.mk · 8) base
      obtain ⟨after, rest⟩ :=
        ih (attached.served base) next (by rw [window]; exact inside.2) outside.2
      have run := storeAll_cons written later
      refine ⟨after, by rw [run, rest.served], ?_, by rw [run, rest.ram]; rfl, ?_, rest.held⟩
      · rw [run, rest.devices, Bus.served, List.set_set]
      · have bytes : Output.serialBytes [.serial sent.2,
            .log (.deviceWrite store.address store.value "serial")] = sent.2 := by
          simp [Output.serialBytes]
        rw [run, serialBytes_append, bytes, List.append_assoc, rest.stream, base,
          ← List.append_assoc, stream, Serial.transmitted_cons, List.append_assoc]

/-- The serial line loses nothing, sends nothing twice and keeps the order.  Whatever is stored to its
window, the bytes sent and the bytes held back are those that it held back before and the low bytes of
the stores to its data register; it never holds back a newline or as much as makes it send; what it
holds back is sent when it is taken away; and a store of several bytes does what storing them one by
one would do. -/
theorem serial_line_keeps_order {stores : List Store} (attached : bus.Attached position serial)
    (held : serial.Held)
    (inside : ∀ store ∈ stores, (Device.window serial).Contains store.address store.width.bytes)
    (outside : ∀ store ∈ stores, ¬bus.ram.Holds store.address store.width.bytes) :
    (∃ after, Transmits bus position serial stores after ∧
      Output.serialBytes (bus.storeAll stores).output ++
          Device.close (Sum.inl after : Serial ⊕ ε) =
        serial.buffer.toList ++ Serial.transmitted serial.base stores) ∧
    ∀ (line : Serial) (width : Width) (offset value : UInt64), offset.toNat + width.bytes ≤ 8 →
      ∃ written, Device.write? line width offset value = some written ∧
        Device.writeWide? Serial.writeByte line width offset value = some written := by
  obtain ⟨after, transmits⟩ := exists_transmits attached held inside outside
  exact ⟨⟨after, transmits, transmits.stream⟩,
    fun line _ _ value within =>
      ⟨_, line.write?_eq_writeByte value within, line.writeWide?_eq value within⟩⟩

/-- The devices of the board in order of their windows. -/
def boardBus : Bus Peripheral where
  ram := Memory.new 0x80000000 64
  devices := [.inr ⟨Peripheral.timerBase, 0, Clock.stopped⟩, .inl ⟨Peripheral.serialBase, #[]⟩]

/-- Stores of every width, of which one does not start at the data register. -/
def boardStores : List Store :=
  [⟨Peripheral.serialBase, .byte, 0x48⟩, ⟨Peripheral.serialBase, .half, 0x2169⟩,
    ⟨Peripheral.serialBase + 4, .word, 0x2121⟩, ⟨Peripheral.serialBase, .double, 0x210A⟩]

theorem board_transmits_stores :
    boardBus.Attached 1 ⟨Peripheral.serialBase, #[]⟩ ∧
    (∃ after, Transmits boardBus 1 ⟨Peripheral.serialBase, #[]⟩ boardStores after) ∧
    Serial.transmitted Peripheral.serialBase boardStores = [0x48, 0x69, 0x0A] := by
  have attached : boardBus.Attached 1 ⟨Peripheral.serialBase, #[]⟩ := by
    refine ⟨rfl, by decide, fun other device elsewhere standing => ?_⟩
    match other, elsewhere, standing with
    | 0, _, rfl => exact Window.Apart.of_disjoint (by decide) (by decide) (.inl (by decide))
    | other + 2, _, standing => cases standing
  have inside : ∀ store ∈ boardStores,
      (Device.window (⟨Peripheral.serialBase, #[]⟩ : Serial)).Contains store.address
        store.width.bytes := by
    decide
  have outside : ∀ store ∈ boardStores, ¬boardBus.ram.Holds store.address store.width.bytes := by
    unfold Memory.Holds
    decide
  obtain ⟨⟨after, transmits, _⟩, _⟩ :=
    serial_line_keeps_order attached (Serial.held_of_empty rfl) inside outside
  exact ⟨attached, ⟨after, transmits⟩, by decide⟩

end Bus

end HartScope
