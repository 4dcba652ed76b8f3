import HartScope.Device.Basic
import Mathlib.Tactic.Ring

/-!
Wide accesses of a device that has byte accesses alone.  A wide read joins two reads of half its width, so
its bytes are read in the order of their offsets, each from the device as the one before has left it;
the value is the little-endian number of these bytes.  A wide write is in the same way the byte writes of
the low bytes of its value.  An access with a byte behind the last offset overflows.
-/

namespace HartScope

namespace LittleEndian

theorem toNat_append (low high : List UInt8) :
    toNat (low ++ high) = toNat low + 2 ^ (8 * low.length) * toNat high := by
  induction low with
  | nil => simp [toNat]
  | cons byte rest ih =>
      rw [List.cons_append, toNat, toNat, ih, List.length_cons, Nat.mul_succ, Nat.pow_add]
      ring

theorem toNat_lt_two_pow {bytes : List UInt8} {count : Nat} (length : bytes.length = count) :
    toNat bytes < 2 ^ (8 * count) := by
  have bound := toNat_lt bytes
  rwa [length, Nat.one_shiftLeft] at bound

theorem or_shiftLeft {low bits : Nat} (bound : low < 2 ^ bits) (high : Nat) :
    low ||| high <<< bits = low + 2 ^ bits * high := by
  rw [Nat.shiftLeft_eq, Nat.mul_comm, Nat.or_comm, ← Nat.two_pow_add_eq_or_of_lt bound,
    Nat.add_comm]

theorem or_shiftLeft_halves {low high : Nat} (lowBound : low < 2 ^ 16) (highBound : high < 2 ^ 16) :
    (UInt16.ofNat low).toUInt32 ||| (UInt16.ofNat high).toUInt32 <<< 16 =
      UInt32.ofNat (low + 2 ^ 16 * high) := by
  have fits : high <<< 16 < 2 ^ 32 := by
    rw [Nat.shiftLeft_eq]
    omega
  rw [← UInt32.toNat_inj, UInt32.toNat_or, UInt32.toNat_shiftLeft, UInt16.toNat_toUInt32,
    UInt16.toNat_toUInt32, UInt16.toNat_ofNat_of_lt' lowBound, UInt16.toNat_ofNat_of_lt' highBound,
    UInt32.toNat_ofNat_of_lt' (by unfold UInt32.size; omega)]
  change low ||| high <<< 16 % 2 ^ 32 = _
  rw [Nat.mod_eq_of_lt fits, or_shiftLeft lowBound]

theorem or_shiftLeft_words {low high : Nat} (lowBound : low < 2 ^ 32) (highBound : high < 2 ^ 32) :
    (UInt32.ofNat low).toUInt64 ||| (UInt32.ofNat high).toUInt64 <<< 32 =
      UInt64.ofNat (low + 2 ^ 32 * high) := by
  have fits : high <<< 32 < 2 ^ 64 := by
    rw [Nat.shiftLeft_eq]
    omega
  rw [← UInt64.toNat_inj, UInt64.toNat_or, UInt64.toNat_shiftLeft, UInt32.toNat_toUInt64,
    UInt32.toNat_toUInt64, UInt32.toNat_ofNat_of_lt' lowBound, UInt32.toNat_ofNat_of_lt' highBound,
    UInt64.toNat_ofNat_of_lt' (by unfold UInt64.size; omega)]
  change low ||| high <<< 32 % 2 ^ 64 = _
  rw [Nat.mod_eq_of_lt fits, or_shiftLeft lowBound]

theorem widen_half {value : Nat} (bound : value < 2 ^ 16) :
    (UInt16.ofNat value).toUInt64 = UInt64.ofNat value := by
  rw [← UInt64.toNat_inj, UInt16.toNat_toUInt64, UInt16.toNat_ofNat_of_lt' bound,
    UInt64.toNat_ofNat_of_lt' (Nat.lt_trans bound (by decide))]

theorem widen_word {value : Nat} (bound : value < 2 ^ 32) :
    (UInt32.ofNat value).toUInt64 = UInt64.ofNat value := by
  rw [← UInt64.toNat_inj, UInt32.toNat_toUInt64, UInt32.toNat_ofNat_of_lt' bound,
    UInt64.toNat_ofNat_of_lt' (Nat.lt_trans bound (by decide))]

end LittleEndian

namespace Device

variable {δ : Type}

/-- Consecutive numbers as offsets, which they are up to the last one. -/
def offsets (start count : Nat) : List UInt64 :=
  (List.range' start count).map UInt64.ofNat

def readEach (readByte : δ → UInt64 → UInt8 × δ) : δ → List UInt64 → List UInt8 × δ
  | device, [] => ([], device)
  | device, offset :: later =>
      let (byte, device) := readByte device offset
      let (bytes, device) := readEach readByte device later
      (byte :: bytes, device)

/-- Byte writes, one after the other, and all that they send. -/
def writeEach (writeByte : δ → UInt64 → UInt8 → δ × List UInt8) :
    δ → List (UInt64 × UInt8) → δ × List UInt8
  | device, [] => (device, [])
  | device, (offset, byte) :: later =>
      let (device, sent) := writeByte device offset byte
      let (device, rest) := writeEach writeByte device later
      (device, sent ++ rest)

@[simp] theorem offsets_length (start count : Nat) : (offsets start count).length = count := by
  simp [offsets]

theorem offsets_append (start first second : Nat) :
    offsets start (first + second) = offsets start first ++ offsets (start + first) second := by
  rw [offsets, ← List.range'_append_1, List.map_append, offsets, offsets]

theorem offsets_succ (start count : Nat) :
    offsets start (count + 1) = UInt64.ofNat start :: offsets (start + 1) count :=
  rfl

theorem offsets_toNat {start count : Nat} (within : start + count ≤ UInt64.size) :
    (offsets start count).map UInt64.toNat = List.range' start count := by
  rw [offsets, List.map_map]
  refine (List.map_congr_left fun offset member => ?_).trans (List.map_id _)
  have bound := (List.mem_range'_1.mp member).2
  exact UInt64.toNat_ofNat_of_lt' (by omega)

variable (readByte : δ → UInt64 → UInt8 × δ) (writeByte : δ → UInt64 → UInt8 → δ × List UInt8)

theorem readEach_cons (device : δ) (offset : UInt64) (later : List UInt64) :
    readEach readByte device (offset :: later) =
      ((readByte device offset).1 :: (readEach readByte (readByte device offset).2 later).1,
        (readEach readByte (readByte device offset).2 later).2) :=
  rfl

theorem writeEach_cons (device : δ) (offset : UInt64) (byte : UInt8)
    (later : List (UInt64 × UInt8)) :
    writeEach writeByte device ((offset, byte) :: later) =
      ((writeEach writeByte (writeByte device offset byte).1 later).1,
        (writeByte device offset byte).2 ++
          (writeEach writeByte (writeByte device offset byte).1 later).2) :=
  rfl

@[simp] theorem readEach_length (device : δ) (offsets : List UInt64) :
    (readEach readByte device offsets).1.length = offsets.length := by
  induction offsets generalizing device with
  | nil => rfl
  | cons offset later ih => simp [readEach, ih]

theorem readEach_append (device : δ) (first second : List UInt64) :
    readEach readByte device (first ++ second) =
      ((readEach readByte device first).1 ++
          (readEach readByte (readEach readByte device first).2 second).1,
        (readEach readByte (readEach readByte device first).2 second).2) := by
  induction first generalizing device with
  | nil => rfl
  | cons offset later ih => simp only [List.cons_append, readEach, ih]

/-- Reads bytes at ascending offsets, as long as there are any. -/
def readEach? (device : δ) (offset : UInt64) (count : Nat) : Option (List UInt8 × δ) :=
  if offset.toNat + count ≤ UInt64.size then
    some (readEach readByte device (offsets offset.toNat count))
  else none

theorem readEach?_length {device : δ} {offset : UInt64} {count : Nat} {told : List UInt8 × δ}
    (read : readEach? readByte device offset count = some told) : told.1.length = count := by
  unfold readEach? at read
  split at read
  · cases read
    simp
  · cases read

/-- The bytes of a range are those of its first part and, from the device that these leave, those of the
rest, whose start must be an offset. -/
theorem readEach?_append (device : δ) (offset : UInt64) (first second : Nat)
    (small : first < UInt64.size) (positive : 0 < second) :
    readEach? readByte device offset (first + second) =
      (readEach? readByte device offset first).bind fun low =>
        (exactSum? offset (UInt64.ofNat first)).bind fun next =>
          (readEach? readByte low.2 next second).map fun high => (low.1 ++ high.1, high.2) := by
  have distance : (UInt64.ofNat first).toNat = first := UInt64.toNat_ofNat_of_lt' small
  by_cases within : offset.toNat + first < UInt64.size
  · have early : offset.toNat + first ≤ UInt64.size := Nat.le_of_lt within
    obtain ⟨next, sum⟩ : ∃ next, exactSum? offset (UInt64.ofNat first) = some next :=
      ⟨_, if_pos (by rwa [distance])⟩
    have begins : next.toNat = offset.toNat + first := by rw [exactSum?_toNat sum, distance]
    simp only [readEach?, if_pos early, sum, Option.bind_some, begins, ← Nat.add_assoc]
    split
    · rw [offsets_append, readEach_append]
      rfl
    · rfl
  · have none : exactSum? offset (UInt64.ofNat first) = none :=
      exactSum?_eq_none_iff.mpr (by rw [distance]; exact Nat.not_lt.mp within)
    rw [readEach?, if_neg (by omega), none]
    cases readEach? readByte device offset first <;> rfl

theorem readEach?_one (device : δ) (offset : UInt64) :
    readEach? readByte device offset 1 =
      some ([(readByte device offset).1], (readByte device offset).2) := by
  rw [readEach?, if_pos (Nat.succ_le_of_lt offset.toNat_lt), offsets_succ, UInt64.ofNat_toNat]
  rfl

theorem readHalf?_eq (device : δ) (offset : UInt64) :
    readHalf? readByte device offset = (readEach? readByte device offset 2).map
      (Prod.map (UInt16.ofNat ∘ LittleEndian.toNat) id) := by
  rw [readEach?_append readByte device offset 1 1 (by decide) Nat.one_pos,
    readEach?_one, Option.bind_some, readHalf?]
  change (exactSum? offset 1).bind _ = Option.map _ ((exactSum? offset 1).bind _)
  cases exactSum? offset 1 with
  | none => rfl
  | some next =>
      simp only [Option.bind_some, readEach?_one]
      rfl

theorem readEach?_toNat_lt {device : δ} {offset : UInt64} {count : Nat} {told : List UInt8 × δ}
    (read : readEach? readByte device offset count = some told) :
    LittleEndian.toNat told.1 < 2 ^ (8 * count) :=
  LittleEndian.toNat_lt_two_pow (readEach?_length readByte read)

/-- Two reads of half the bytes each, joined, are one read of all of them. -/
theorem readEach?_join {α β : Type} (part : List UInt8 → α) {whole : List UInt8 → β}
    (join : α → α → β) (device : δ) (offset : UInt64) (half : Nat) (small : half < UInt64.size)
    (positive : 0 < half)
    (joins : ∀ low high, low.length = half →
      LittleEndian.toNat low < 2 ^ (8 * half) → LittleEndian.toNat high < 2 ^ (8 * half) →
        join (part low) (part high) = whole (low ++ high)) :
    (do
      let low ← (readEach? readByte device offset half).map (Prod.map part id)
      let next ← exactSum? offset (UInt64.ofNat half)
      let high ← (readEach? readByte low.2 next half).map (Prod.map part id)
      return (join low.1 high.1, high.2)) =
        (readEach? readByte device offset (half + half)).map (Prod.map whole id) := by
  rw [readEach?_append readByte device offset half half small positive]
  cases lower : readEach? readByte device offset half with
  | none => rfl
  | some low =>
      cases exactSum? offset (UInt64.ofNat half) with
      | none => rfl
      | some next =>
          cases upper : readEach? readByte low.2 next half with
          | none => simp [upper]
          | some high =>
              have joined := joins low.1 high.1 (readEach?_length readByte lower)
                (readEach?_toNat_lt readByte lower) (readEach?_toNat_lt readByte upper)
              simp [upper, joined]

theorem readWord?_eq (device : δ) (offset : UInt64) :
    readWord? readByte device offset = (readEach? readByte device offset 4).map
      (Prod.map (UInt32.ofNat ∘ LittleEndian.toNat) id) := by
  simp only [readWord?, readHalf?_eq]
  refine readEach?_join readByte (UInt16.ofNat ∘ LittleEndian.toNat)
    (fun low high => low.toUInt32 ||| high.toUInt32 <<< 16) device offset 2 (by decide) (by decide)
    fun low high length lowBound highBound => ?_
  simp [LittleEndian.or_shiftLeft_halves lowBound highBound, LittleEndian.toNat_append, length]

theorem readDouble?_eq (device : δ) (offset : UInt64) :
    readDouble? readByte device offset = (readEach? readByte device offset 8).map
      (Prod.map (UInt64.ofNat ∘ LittleEndian.toNat) id) := by
  simp only [readDouble?, readWord?_eq]
  refine readEach?_join readByte (UInt32.ofNat ∘ LittleEndian.toNat)
    (fun low high => low.toUInt64 ||| high.toUInt64 <<< 32) device offset 4 (by decide) (by decide)
    fun low high length lowBound highBound => ?_
  simp [LittleEndian.or_shiftLeft_words lowBound highBound, LittleEndian.toNat_append, length]

theorem readWide?_eq (device : δ) (width : Width) (offset : UInt64) :
    readWide? readByte device width offset = (readEach? readByte device offset width.bytes).map
      (Prod.map (UInt64.ofNat ∘ LittleEndian.toNat) id) := by
  cases width with
  | byte =>
      rw [readWide?, Width.bytes, readEach?_one]
      simp [Prod.map, LittleEndian.toNat]
  | half =>
      rw [readWide?, readHalf?_eq, Width.bytes, Option.map_map]
      refine Option.map_congr fun told read => ?_
      have narrow := readEach?_toNat_lt readByte read
      simp only [Prod.map, Function.comp, id, LittleEndian.widen_half narrow]
  | word =>
      rw [readWide?, readWord?_eq, Width.bytes, Option.map_map]
      refine Option.map_congr fun told read => ?_
      have narrow := readEach?_toNat_lt readByte read
      simp only [Prod.map, Function.comp, id, LittleEndian.widen_word narrow]
  | double => exact readDouble?_eq readByte device offset

/-- As long as there are offsets, the bytes are written at ascending ones. -/
theorem writeFrom?_of_le (offset : UInt64) {distance : Nat} {bytes : List UInt8} (device : δ)
    (within : offset.toNat + distance + bytes.length ≤ UInt64.size) :
    writeFrom? writeByte offset distance bytes device =
      some (writeEach writeByte device
        ((offsets (offset.toNat + distance) bytes.length).zip bytes)) := by
  induction bytes generalizing distance device with
  | nil => rfl
  | cons byte later ih =>
      rw [List.length_cons] at within
      have far : (UInt64.ofNat distance).toNat = distance :=
        UInt64.toNat_ofNat_of_lt' (by omega)
      have sum : exactSum? offset (UInt64.ofNat distance) =
          some (UInt64.ofNat (offset.toNat + distance)) := by
        rw [exactSum?, if_pos (by omega), UInt64.ofNat_add, UInt64.ofNat_toNat]
      have rest (device : δ) := @ih (distance + 1) device (by omega)
      simp only [writeFrom?, sum, rest, List.length_cons, offsets_succ, List.zip_cons_cons,
        writeEach_cons, Nat.add_assoc]
      rfl

/-- A byte behind the last offset cannot be written. -/
theorem writeFrom?_eq_none (offset : UInt64) {distance : Nat} {bytes : List UInt8} (device : δ)
    (small : distance + bytes.length < UInt64.size)
    (reached : offset.toNat + distance ≤ UInt64.size)
    (beyond : UInt64.size < offset.toNat + distance + bytes.length) :
    writeFrom? writeByte offset distance bytes device = none := by
  induction bytes generalizing distance device with
  | nil => exact absurd beyond (Nat.not_lt.mpr reached)
  | cons byte later ih =>
      rw [List.length_cons] at small beyond
      have far : (UInt64.ofNat distance).toNat = distance :=
        UInt64.toNat_ofNat_of_lt' (by omega)
      cases sum : exactSum? offset (UInt64.ofNat distance) with
      | none => simp only [writeFrom?, sum, Option.bind_eq_bind, Option.bind_none]
      | some place =>
          have here := exactSum?_toNat sum
          have bound : place.toNat < UInt64.size := place.toNat_lt
          have rest (device : δ) := @ih (distance + 1) device (by omega) (by omega)
            (by omega)
          simp only [writeFrom?, sum, rest, Option.bind_eq_bind, Option.bind_some, Option.bind_none]

theorem writeWide?_eq (device : δ) (width : Width) (offset value : UInt64) :
    writeWide? writeByte device width offset value =
      if offset.toNat + width.bytes ≤ UInt64.size then
        some (writeEach writeByte device
          ((offsets offset.toNat width.bytes).zip (LittleEndian.ofNat width.bytes value.toNat)))
      else none := by
  have length := LittleEndian.ofNat_length width.bytes value.toNat
  split
  · rename_i within
    rw [← length] at within
    rw [writeWide?, writeFrom?_of_le writeByte offset device within, length]
    rfl
  · rename_i beyond
    have small := width.bytes_le
    have bound := offset.toNat_lt
    exact writeFrom?_eq_none writeByte offset device (by rw [length]; unfold UInt64.size; omega)
      (Nat.le_of_lt bound) (by rw [length]; omega)

variable {readByte writeByte} {device : δ} {width : Width} {offset : UInt64}

/-- What byte reads leave alone, wide reads leave alone. -/
theorem readWide?_preserves {α : Type} {part : δ → α}
    (kept : ∀ device offset, part (readByte device offset).2 = part device)
    {told : UInt64 × δ} (read : readWide? readByte device width offset = some told) :
    part told.2 = part device := by
  have each (offsets : List UInt64) (device : δ) :
      part (readEach readByte device offsets).2 = part device := by
    induction offsets generalizing device with
    | nil => rfl
    | cons offset later ih => exact (ih _).trans (kept device offset)
  rw [readWide?_eq, readEach?] at read
  split at read
  · cases read
    exact each _ device
  · cases read

theorem writeWide?_preserves {α : Type} {part : δ → α}
    (kept : ∀ device offset byte, part (writeByte device offset byte).1 = part device)
    {value : UInt64} {written : δ × List UInt8}
    (write : writeWide? writeByte device width offset value = some written) :
    part written.1 = part device := by
  have each (writes : List (UInt64 × UInt8)) (device : δ) :
      part (writeEach writeByte device writes).1 = part device := by
    induction writes generalizing device with
    | nil => rfl
    | cons first later ih => exact (ih _).trans (kept device first.1 first.2)
  rw [writeWide?_eq] at write
  split at write
  · cases write
    exact each _ device
  · cases write

/-- A device that leaves its wide accesses as they are by default. -/
class Bytewise (δ : Type) [Device δ] : Prop where
  read? (device : δ) (width : Width) (offset : UInt64) :
    Device.read? device width offset = readWide? Device.readByte device width offset
  write? (device : δ) (width : Width) (offset value : UInt64) :
    Device.write? device width offset value =
      writeWide? Device.writeByte device width offset value

/-- A byte access that has reached a device: the byte read, or the one written. -/
inductive ByteAccess where
  | read (offset : UInt64) (byte : UInt8)
  | write (offset : UInt64) (byte : UInt8)
deriving DecidableEq, Repr

/-- A device with the byte accesses that have reached it. -/
structure Recorded (δ : Type) where
  device : δ
  accesses : List ByteAccess := []

variable [Device δ]

instance : Device (Recorded δ) where
  name recorded := Device.name recorded.device
  window recorded := Device.window recorded.device
  readByte recorded offset :=
    let (byte, after) := Device.readByte recorded.device offset
    (byte, ⟨after, recorded.accesses ++ [.read offset byte]⟩)
  writeByte recorded offset byte :=
    let (after, sent) := Device.writeByte recorded.device offset byte
    (⟨after, recorded.accesses ++ [.write offset byte]⟩, sent)

instance : Bytewise (Recorded δ) where
  read? _ _ _ := rfl
  write? _ _ _ _ := rfl

theorem readEach_recorded (device : δ) (accesses : List ByteAccess) (offsets : List UInt64) :
    readEach Device.readByte (Recorded.mk device accesses) offsets =
      ((readEach Device.readByte device offsets).1,
        ⟨(readEach Device.readByte device offsets).2, accesses ++
          offsets.zipWith .read (readEach Device.readByte device offsets).1⟩) := by
  induction offsets generalizing device accesses with
  | nil => simp [readEach]
  | cons offset later ih =>
      have first : Device.readByte (Recorded.mk device accesses) offset =
          ((Device.readByte device offset).1, ⟨(Device.readByte device offset).2,
            accesses ++ [.read offset (Device.readByte device offset).1]⟩) := rfl
      simp only [readEach, first, ih, List.zipWith_cons_cons, List.append_assoc,
        List.singleton_append]

theorem writeEach_recorded (device : δ) (accesses : List ByteAccess)
    (writes : List (UInt64 × UInt8)) :
    writeEach Device.writeByte (Recorded.mk device accesses) writes =
      (⟨(writeEach Device.writeByte device writes).1,
          accesses ++ writes.map fun write => .write write.1 write.2⟩,
        (writeEach Device.writeByte device writes).2) := by
  induction writes generalizing device accesses with
  | nil => simp [writeEach]
  | cons write later ih =>
      have first : Device.writeByte (Recorded.mk device accesses) write.1 write.2 =
          (⟨(Device.writeByte device write.1 write.2).1, accesses ++ [.write write.1 write.2]⟩,
            (Device.writeByte device write.1 write.2).2) := rfl
      simp only [writeEach, first, ih, List.map_cons, List.append_assoc, List.singleton_append]

/-- A read is one read of each of its bytes, at ascending offsets, and tells their little-endian
number. -/
structure ReadsEach (device : δ) (width : Width) (offset : UInt64) : Prop where
  ascending :
    (offsets offset.toNat width.bytes).map UInt64.toNat = List.range' offset.toNat width.bytes
  result : Device.read? device width offset =
    some ((readEach Device.readByte device (offsets offset.toNat width.bytes)).map
      (UInt64.ofNat ∘ LittleEndian.toNat) id)
  recorded (earlier : List ByteAccess) :
    Device.read? (Recorded.mk device earlier) width offset =
      (Device.read? device width offset).map (Prod.map id fun after => ⟨after, earlier ++
        (offsets offset.toNat width.bytes).zipWith .read
          (readEach Device.readByte device (offsets offset.toNat width.bytes)).1⟩)

/-- A write is one write of each of the little-endian bytes of its value, at ascending offsets. -/
structure WritesEach (device : δ) (width : Width) (offset value : UInt64) : Prop where
  ascending :
    (offsets offset.toNat width.bytes).map UInt64.toNat = List.range' offset.toNat width.bytes
  result : Device.write? device width offset value =
    some (writeEach Device.writeByte device
      ((offsets offset.toNat width.bytes).zip (LittleEndian.ofNat width.bytes value.toNat)))
  recorded (earlier : List ByteAccess) :
    Device.write? (Recorded.mk device earlier) width offset value =
      (Device.write? device width offset value).map (Prod.map (fun after => ⟨after, earlier ++
        (offsets offset.toNat width.bytes).zipWith .write
          (LittleEndian.ofNat width.bytes value.toNat)⟩) id)

variable [Bytewise δ]

theorem read?_eq (device : δ) (width : Width) (offset : UInt64) :
    Device.read? device width offset =
      (readEach? Device.readByte device offset width.bytes).map
        (Prod.map (UInt64.ofNat ∘ LittleEndian.toNat) id) :=
  (Bytewise.read? device width offset).trans (readWide?_eq _ device width offset)

theorem write?_eq (device : δ) (width : Width) (offset value : UInt64) :
    Device.write? device width offset value =
      if offset.toNat + width.bytes ≤ UInt64.size then
        some (writeEach Device.writeByte device
          ((offsets offset.toNat width.bytes).zip (LittleEndian.ofNat width.bytes value.toNat)))
      else none :=
  (Bytewise.write? device width offset value).trans (writeWide?_eq _ device width offset value)

theorem reads_each (device : δ) {width : Width} {offset : UInt64}
    (within : offset.toNat + width.bytes ≤ UInt64.size) : ReadsEach device width offset where
  ascending := offsets_toNat within
  result := by
    rw [read?_eq, readEach?, if_pos within]
    rfl
  recorded earlier := by
    rw [read?_eq, read?_eq, readEach?, readEach?, if_pos within, if_pos within, readEach_recorded]
    rfl

theorem writes_each (device : δ) {width : Width} {offset : UInt64} (value : UInt64)
    (within : offset.toNat + width.bytes ≤ UInt64.size) :
    WritesEach device width offset value where
  ascending := offsets_toNat within
  result := by rw [write?_eq, if_pos within]
  recorded earlier := by
    rw [write?_eq, write?_eq, if_pos within, if_pos within, writeEach_recorded, List.zip,
      List.map_zipWith]
    rfl

/-- An access with a byte behind the last offset overflows. -/
theorem read?_eq_none (device : δ) {width : Width} {offset : UInt64}
    (beyond : UInt64.size < offset.toNat + width.bytes) :
    Device.read? device width offset = none := by
  rw [read?_eq, readEach?, if_neg (Nat.not_le.mpr beyond), Option.map_none]

theorem write?_eq_none (device : δ) {width : Width} {offset : UInt64} (value : UInt64)
    (beyond : UInt64.size < offset.toNat + width.bytes) :
    Device.write? device width offset value = none := by
  rw [write?_eq, if_neg (Nat.not_le.mpr beyond)]

end Device

end HartScope
