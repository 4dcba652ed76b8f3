import HartScope.Proofs.Bus.Accounting
import HartScope.Proofs.Loading.Footprint

/-!
Where the segments of an ELF file come to lie.  They are loaded in order, up to the first that does not
fit: a segment that cannot be placed is refused, and one whose bytes end with the last address or
beyond overflows.  If all of them fit, the last one that has an address decides the byte there.
-/

namespace HartScope

namespace Memory

variable {memory before after : Memory} {address : UInt64} {length : Nat}

theorem load?_isSome_iff {bytes : List UInt8} :
    (memory.load? address bytes).isSome = true ↔ memory.Holds address bytes.length := by
  rw [load?_isSome, offset?_isSome_iff]

theorem fillZero?_isSome_iff :
    (memory.fillZero? address length).isSome = true ↔ memory.Holds address length := by
  rw [fillZero?, Option.isSome_map, offset?_isSome_iff]

theorem Patched.holds_iff {patch : Nat → Option UInt8} (patched : Patched patch before after) :
    after.Holds address length ↔ before.Holds address length := by
  simp only [Holds, patched.base, patched.size]

end Memory

namespace Elf.Segment

variable {header : Segment} {headers : List Segment} {bytes : Array UInt8}
  {memory before after : Memory}

/-- Behind the last address of the segment. -/
def stop (header : Segment) : Nat :=
  header.address.toNat + header.memorySize.toNat

/-- Behind the addresses for which the file has bytes. -/
def dataStop (header : Segment) : Nat :=
  header.address.toNat + header.fileSize.toNat

/-- The address is one of the segment's. -/
def covers (header : Segment) (address : Nat) : Bool :=
  header.address.toNat ≤ address && address < header.stop

/-- What the segment has for one of its addresses: a byte of the file, or a zero behind these. -/
def content? (header : Segment) (bytes : Array UInt8) (address : Nat) : Option UInt8 :=
  if address < header.dataStop then
    bytes[header.offset.toNat + (address - header.address.toNat)]?
  else some 0

/-- The byte that the segment puts at an address. -/
def byte? (header : Segment) (bytes : Array UInt8) (address : Nat) : Option UInt8 :=
  if header.covers address then header.content? bytes address else none

/-- The last of the segments that has the address. -/
def lastCovering? (headers : List Segment) (address : Nat) : Option Segment :=
  headers.reverse.find? (·.covers address)

/-- The bytes of the segment are in the file, it has room for them, and all of it lies in RAM. -/
structure Placeable (header : Segment) (bytes : Array UInt8) (memory : Memory) : Prop where
  present : header.offset.toNat + header.fileSize.toNat ≤ bytes.size
  shorter : header.fileSize ≤ header.memorySize
  inside : memory.Holds header.address header.memorySize.toNat

/-- What it takes to load the segment.  The end of its bytes is an address, too. -/
structure Fits (header : Segment) (bytes : Array UInt8) (memory : Memory) : Prop
    extends header.Placeable bytes memory where
  below : header.dataStop < UInt64.size

/-- Only the end of its bytes is at fault. -/
structure Overflows (header : Segment) (bytes : Array UInt8) (memory : Memory) : Prop
    extends header.Placeable bytes memory where
  beyond : UInt64.size ≤ header.dataStop

instance : Decidable (header.Placeable bytes memory) :=
  decidable_of_iff
    (header.offset.toNat + header.fileSize.toNat ≤ bytes.size ∧
      header.fileSize ≤ header.memorySize ∧
      memory.base.toNat ≤ header.address.toNat ∧
      header.address.toNat + header.memorySize.toNat ≤ memory.base.toNat + memory.size.toNat)
    ⟨fun ⟨present, shorter, inside⟩ => ⟨present, shorter, inside⟩,
      fun ⟨present, shorter, inside⟩ => ⟨present, shorter, inside⟩⟩

instance : Decidable (header.Fits bytes memory) :=
  decidable_of_iff (header.Placeable bytes memory ∧ header.dataStop < UInt64.size)
    ⟨fun ⟨placeable, below⟩ => ⟨placeable, below⟩,
      fun ⟨placeable, below⟩ => ⟨placeable, below⟩⟩

theorem Overflows.not_fits (overflows : header.Overflows bytes memory) :
    ¬header.Fits bytes memory := fun fits =>
  absurd fits.below (Nat.not_lt.mpr overflows.beyond)

theorem dataStop_le_stop (shorter : header.fileSize ≤ header.memorySize) :
    header.dataStop ≤ header.stop :=
  Nat.add_le_add_left (UInt64.le_iff_toNat_le.mp shorter) _

theorem placeable_iff_of_patched {patch : Nat → Option UInt8}
    (patched : before.Patched patch after) :
    header.Placeable bytes after ↔ header.Placeable bytes before := by
  constructor <;> rintro ⟨present, shorter, inside⟩
  · exact ⟨present, shorter, patched.holds_iff.mp inside⟩
  · exact ⟨present, shorter, patched.holds_iff.mpr inside⟩

theorem fits_iff_of_patched {patch : Nat → Option UInt8} (patched : before.Patched patch after) :
    header.Fits bytes after ↔ header.Fits bytes before := by
  constructor <;> rintro ⟨placeable, below⟩
  · exact ⟨(placeable_iff_of_patched patched).mp placeable, below⟩
  · exact ⟨(placeable_iff_of_patched patched).mpr placeable, below⟩

theorem overflows_iff_of_patched {patch : Nat → Option UInt8}
    (patched : before.Patched patch after) :
    header.Overflows bytes after ↔ header.Overflows bytes before := by
  constructor <;> rintro ⟨placeable, beyond⟩
  · exact ⟨(placeable_iff_of_patched patched).mp placeable, beyond⟩
  · exact ⟨(placeable_iff_of_patched patched).mpr placeable, beyond⟩

theorem content?_isSome (placeable : header.Placeable bytes memory) {address : Nat}
    (covered : header.covers address = true) : (header.content? bytes address).isSome = true := by
  have room := placeable.present
  simp only [covers, Bool.and_eq_true, decide_eq_true_eq] at covered
  rw [content?]
  split
  · rename_i data
    rw [dataStop] at data
    rw [Array.getElem?_eq_getElem (by omega)]
    rfl
  · rfl

theorem lastCovering?_some {address : Nat} (found : lastCovering? headers address = some header) :
    header ∈ headers ∧ header.covers address = true :=
  ⟨List.mem_reverse.mp (List.mem_of_find?_eq_some found),
    List.find?_some (p := fun header : Segment => header.covers address) found⟩

/-- The bytes of the file, and behind them zeros up to the end of the segment. -/
theorem byte?_patched {contents : List UInt8} {copied : Memory} {tail : UInt64}
    (shorter : header.fileSize ≤ header.memorySize)
    (length : contents.length = header.fileSize.toNat)
    (same : ∀ i < header.fileSize.toNat, contents[i]? = bytes[header.offset.toNat + i]?)
    (begins : tail.toNat = header.dataStop)
    (copy : memory.load? header.address contents = some copied)
    (clear : copied.fillZero? tail (header.memorySize - header.fileSize).toNat = some after) :
    memory.Patched (header.byte? bytes) after := by
  have stops : header.dataStop + (header.memorySize - header.fileSize).toNat = header.stop := by
    rw [UInt64.le_iff_toNat_le] at shorter
    rw [UInt64.toNat_sub_of_le _ _ shorter, dataStop, stop]
    omega
  have patched := (Memory.load?_patched copy).trans (Memory.fillZero?_patched clear)
  rw [begins, stops, length, ← dataStop] at patched
  refine patched.congr fun address => ?_
  have ordered := dataStop_le_stop shorter
  simp only [byte?, content?, covers, Bool.and_eq_true, decide_eq_true_eq]
  by_cases zero : header.dataStop ≤ address ∧ address < header.stop
  · have lower : header.address.toNat ≤ address := Nat.le_trans (Nat.le_add_right _ _) zero.1
    rw [if_pos zero, if_pos ⟨lower, zero.2⟩, if_neg (Nat.not_lt.mpr zero.1), Option.some_or]
  · rw [if_neg zero, Option.none_or]
    by_cases data : header.address.toNat ≤ address ∧ address < header.dataStop
    · have index : address - header.address.toNat < header.fileSize.toNat := by
        rw [dataStop] at data
        omega
      rw [if_pos data, if_pos ⟨data.1, by omega⟩, if_pos data.2, same _ index]
    · rw [if_neg data, if_neg (by omega)]

end Elf.Segment

namespace Loading

open Elf (Reader Segment)

variable {reader : Reader} {bytes : Array UInt8} {header : Segment} {headers : List Segment}
  {memory between after : Memory}

/-- What becomes of a segment. -/
inductive Outcome (header : Segment) (bytes : Array UInt8) (memory : Memory) :
    Memory × Except LoadFailure UInt64 → Prop where
  | refused (bad : ¬header.Placeable bytes memory) (cause : LoadError) :
      Outcome header bytes memory (memory, .error (.refused cause))
  | overflowed (overflows : header.Overflows bytes memory) (copied : Memory) :
      Outcome header bytes memory (copied, .error .overflow)
  | placed (fits : header.Fits bytes memory) {after : Memory}
      (patched : memory.Patched (header.byte? bytes) after) :
      Outcome header bytes memory
        (after, .ok (saturatingEnd header.address header.memorySize.toNat))

theorem segment_of_unplaceable (lawful : reader.Lawful) (bad : ¬header.Placeable bytes memory) :
    ∃ cause, segment reader bytes memory header = (memory, .error (.refused cause)) := by
  simp only [segment]
  cases read : reader.contents? bytes header with
  | none => exact ⟨_, rfl⟩
  | some contents =>
      have unfit : header.memorySize < header.fileSize ∨
          ¬memory.contains header.address header.memorySize.toNat = true := by
        refine Classical.byContradiction fun accepted => bad ?_
        obtain ⟨shorter, inside⟩ := not_or.mp accepted
        refine ⟨(lawful.contents?_isSome_iff ..).mp (by rw [read]; rfl), UInt64.not_lt.mp shorter, ?_⟩
        rw [← Memory.offset?_isSome_iff]
        exact Decidable.not_not.mp inside
      exact ⟨_, if_pos unfit⟩

theorem segment_of_placeable (lawful : reader.Lawful)
    (placeable : header.Placeable bytes memory) :
    Outcome header bytes memory (segment reader bytes memory header) := by
  obtain ⟨contents, read⟩ :=
    Option.isSome_iff_exists.mp ((lawful.contents?_isSome_iff ..).mpr placeable.present)
  have length := lawful.contents?_length read
  have accepted : ¬(header.memorySize < header.fileSize ∨
      ¬memory.contains header.address header.memorySize.toNat = true) := by
    rintro (longer | outside)
    · exact absurd placeable.shorter (UInt64.not_le.mpr longer)
    · exact outside ((Memory.offset?_isSome_iff ..).mpr placeable.inside)
  have shorter := UInt64.le_iff_toNat_le.mp placeable.shorter
  obtain ⟨lower, upper⟩ := placeable.inside
  obtain ⟨copied, copy⟩ := Option.isSome_iff_exists.mp
    (Memory.load?_isSome_iff.mpr (⟨lower, by omega⟩ : memory.Holds header.address contents.length))
  simp only [segment, read, if_neg accepted, copy]
  cases sum : exactSum? header.address header.fileSize with
  | none => exact .overflowed ⟨placeable, exactSum?_eq_none_iff.mp sum⟩ copied
  | some tail =>
      have begins := exactSum?_toNat sum
      have rest := UInt64.toNat_sub_of_le _ _ placeable.shorter
      have room : copied.Holds tail (header.memorySize - header.fileSize).toNat :=
        (Memory.load?_patched copy).holds_iff.mpr ⟨by omega, by omega⟩
      obtain ⟨after, clear⟩ := Option.isSome_iff_exists.mp (Memory.fillZero?_isSome_iff.mpr room)
      simp only [clear]
      have below : header.dataStop < UInt64.size :=
        Nat.lt_of_le_of_lt (Nat.le_of_eq begins.symm) tail.toNat_lt
      exact .placed ⟨placeable, below⟩
        (Segment.byte?_patched placeable.shorter length (lawful.contents?_getElem? read) begins
          copy clear)

theorem segment_outcome (lawful : reader.Lawful) (bytes : Array UInt8) (header : Segment)
    (memory : Memory) :
    Outcome header bytes memory (segment reader bytes memory header) := by
  by_cases placeable : header.Placeable bytes memory
  · exact segment_of_placeable lawful placeable
  · obtain ⟨cause, refused⟩ := segment_of_unplaceable lawful placeable
    rw [refused]
    exact .refused placeable cause

/-- The byte that the last of the segments with the address puts there. -/
def overlay (bytes : Array UInt8) (headers : List Segment) (address : Nat) : Option UInt8 :=
  headers.reverse.findSome? (·.byte? bytes address)

theorem overlay_cons (header : Segment) (headers : List Segment) :
    overlay bytes (header :: headers) =
      fun address => (overlay bytes headers address).or (header.byte? bytes address) := by
  funext address
  rw [overlay, List.reverse_cons, List.findSome?_append, List.findSome?_singleton, overlay]

/-- Loading gets to a segment behind others that fit. -/
structure Reaches (bytes : Array UInt8) (memory : Memory) (headers earlier : List Segment)
    (header : Segment) : Prop where
  split : ∃ later, headers = earlier ++ header :: later
  placed : ∀ other ∈ earlier, other.Fits bytes memory

/-- The segments before the first that cannot be placed are in RAM, and nothing else. -/
def CutShort (bytes : Array UInt8) (before after : Memory) (headers : List Segment) : Prop :=
  ∃ earlier header, Reaches bytes before headers earlier header ∧
    ¬header.Placeable bytes before ∧ before.Patched (overlay bytes earlier) after

/-- The first segment that does not fit overflows. -/
def Overflow (bytes : Array UInt8) (memory : Memory) (headers : List Segment) : Prop :=
  ∃ earlier header, Reaches bytes memory headers earlier header ∧
    header.Overflows bytes memory

/-- From the least start to the greatest end of the segments. -/
def span (extent : Extent) (headers : List Segment) : Extent :=
  headers.foldl (fun extent header => extent.cover header.address
    (saturatingEnd header.address header.memorySize.toNat)) extent

/-- What becomes of segments that are loaded in order. -/
inductive Progress (headers : List Segment) (bytes : Array UInt8) (memory : Memory)
    (extent : Extent) : Memory × Except LoadFailure Extent → Prop where
  | refused {after : Memory} (short : CutShort bytes memory after headers) (cause : LoadError) :
      Progress headers bytes memory extent (after, .error (.refused cause))
  | overflowed (overflow : Overflow bytes memory headers) (copied : Memory) :
      Progress headers bytes memory extent (copied, .error .overflow)
  | placed (fits : ∀ header ∈ headers, header.Fits bytes memory) {after : Memory}
      (patched : memory.Patched (overlay bytes headers) after) :
      Progress headers bytes memory extent (after, .ok (span extent headers))

theorem Reaches.head (headers : List Segment) (header : Segment) :
    Reaches bytes memory (header :: headers) [] header :=
  ⟨⟨headers, rfl⟩, by simp⟩

theorem Reaches.cons {earlier : List Segment} {bad : Segment}
    (fits : header.Fits bytes memory) {patch : Nat → Option UInt8}
    (patched : memory.Patched patch between)
    (reached : Reaches bytes between headers earlier bad) :
    Reaches bytes memory (header :: headers) (header :: earlier) bad := by
  obtain ⟨⟨later, rfl⟩, placed⟩ := reached
  exact ⟨⟨later, rfl⟩, List.forall_mem_cons.mpr
    ⟨fits, fun other member => (Segment.fits_iff_of_patched patched).mp (placed other member)⟩⟩

/-- What one segment leaves decides what becomes of the others. -/
theorem Progress.cons {outcome : Memory × Except LoadFailure Extent} {extent : Extent}
    (fits : header.Fits bytes memory) (patched : memory.Patched (header.byte? bytes) between)
    (progress : Progress headers bytes between
      (extent.cover header.address (saturatingEnd header.address header.memorySize.toNat))
      outcome) :
    Progress (header :: headers) bytes memory extent outcome := by
  cases progress with
  | refused short cause =>
      obtain ⟨earlier, bad, reached, unplaceable, overlaid⟩ := short
      refine .refused ⟨header :: earlier, bad, reached.cons fits patched, ?_, ?_⟩ cause
      · rwa [Segment.placeable_iff_of_patched patched] at unplaceable
      · rw [overlay_cons]
        exact patched.trans overlaid
  | overflowed overflow copied =>
      obtain ⟨earlier, bad, reached, overflows⟩ := overflow
      exact .overflowed ⟨header :: earlier, bad, reached.cons fits patched,
        (Segment.overflows_iff_of_patched patched).mp overflows⟩ copied
  | placed others overlaid =>
      refine .placed (List.forall_mem_cons.mpr ⟨fits, fun other member =>
        (Segment.fits_iff_of_patched patched).mp (others other member)⟩) ?_
      rw [overlay_cons]
      exact patched.trans overlaid

theorem segments_progress (lawful : reader.Lawful) (bytes : Array UInt8)
    (headers : List Segment) (memory : Memory) (extent : Extent) :
    Progress headers bytes memory extent (segments reader bytes memory extent headers) := by
  induction headers generalizing memory extent with
  | nil => exact .placed (by simp) (.refl memory)
  | cons header rest ih =>
      have first := segment_outcome lawful bytes header memory
      simp only [segments]
      generalize segment reader bytes memory header = outcome at first ⊢
      cases first with
      | refused bad cause =>
          exact .refused ⟨[], header, .head rest header, bad, .refl memory⟩ cause
      | overflowed overflows copied =>
          exact .overflowed ⟨[], header, .head rest header, overflows⟩ copied
      | placed fits patched => exact (ih _ _).cons fits patched

/-- There is one first segment that does not fit. -/
theorem Reaches.find? {earlier : List Segment} (reached : Reaches bytes memory headers earlier header)
    (unfit : ¬header.Fits bytes memory) :
    headers.find? (fun header => ¬header.Fits bytes memory) = some header := by
  obtain ⟨⟨later, rfl⟩, placed⟩ := reached
  rw [List.find?_eq_some_iff_append]
  exact ⟨by simpa using unfit, earlier, later, rfl, by simpa using placed⟩

theorem Overflow.not_cutShort (overflow : Overflow bytes memory headers) :
    ¬CutShort bytes memory after headers := by
  rintro ⟨_, bad, reached, unplaceable, _⟩
  obtain ⟨_, header, arrived, overflows⟩ := overflow
  have first := reached.find? fun fits => unplaceable fits.toPlaceable
  obtain rfl : header = bad := Option.some.inj ((arrived.find? overflows.not_fits).symm.trans first)
  exact unplaceable overflows.toPlaceable

theorem Overflow.not_fit (overflow : Overflow bytes memory headers) :
    ¬∀ header ∈ headers, header.Fits bytes memory := by
  intro fit
  obtain ⟨earlier, header, ⟨⟨later, rfl⟩, _⟩, overflows⟩ := overflow
  exact overflows.not_fits (fit header (by simp))

theorem findSome?_eq_find? {α β : Type} {f : α → Option β} {p : α → Bool} {l : List α}
    (same : ∀ a ∈ l, (f a).isSome = p a) : l.findSome? f = (l.find? p).bind f := by
  induction l with
  | nil => rfl
  | cons a rest ih =>
      have first := same a List.mem_cons_self
      rw [List.findSome?_cons, List.find?_cons, ← first,
        ih fun other there => same other (List.mem_cons_of_mem _ there)]
      cases image : f a with
      | none => rfl
      | some b => exact image.symm

/-- The last segment that has an address decides what the segments put there. -/
theorem overlay_eq (placeable : ∀ header ∈ headers, header.Placeable bytes memory)
    (address : Nat) :
    overlay bytes headers address =
      (Segment.lastCovering? headers address).bind (·.content? bytes address) := by
  have same : ∀ header ∈ headers.reverse,
      (header.byte? bytes address).isSome = header.covers address := by
    intro header member
    rw [Segment.byte?]
    split
    · rename_i covered
      rw [covered]
      exact Segment.content?_isSome (placeable header (List.mem_reverse.mp member)) covered
    · rename_i apart
      rw [Bool.not_eq_true] at apart
      rw [apart]
      rfl
  rw [overlay, findSome?_eq_find? same, ← Segment.lastCovering?]
  cases found : Segment.lastCovering? headers address with
  | none => rfl
  | some header =>
      rw [Option.bind_some, Option.bind_some, Segment.byte?,
        if_pos (Segment.lastCovering?_some found).2]

/-- Where segments have been put, RAM holds what the last segment with the address has for it, or what
it held before. -/
theorem overlaid_byte (placeable : ∀ header ∈ headers, header.Placeable bytes memory)
    (patched : memory.Patched (overlay bytes headers) after) {i : Nat}
    (inRam : i < memory.size.toNat) :
    some (after.byte i) =
      match Segment.lastCovering? headers (memory.base.toNat + i) with
      | none => some (memory.byte i)
      | some header => header.content? bytes (memory.base.toNat + i) := by
  rw [patched.byte i inRam, overlay_eq placeable]
  cases found : Segment.lastCovering? headers (memory.base.toNat + i) with
  | none => rfl
  | some header =>
      obtain ⟨member, covered⟩ := Segment.lastCovering?_some found
      obtain ⟨byte, content⟩ := Option.isSome_iff_exists.mp
        (Segment.content?_isSome (placeable header member) covered)
      simp only [Option.bind_some, content, Option.getD_some]

end Loading

end HartScope
