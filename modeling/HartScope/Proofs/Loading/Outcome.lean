import HartScope.Proofs.Loading.Placement

/-!
What loading comes to.  A file that is accepted has been put into RAM by its segments, and what it
changes lies inside the range of the image that it reports; one that is refused leaves RAM alone, or
has a bad segment behind good ones.  Loading overflows only under a segment whose bytes end with the
last address or beyond.
-/

namespace HartScope.Loading

open Elf (File Reader Segment)

variable {reader : Reader} {bytes : Array UInt8} {file : File} {header : Segment}
  {headers : List Segment} {memory after : Memory} {extent : Extent} {image : Image}

theorem saturatingEnd_toNat (address : UInt64) (length : Nat) :
    (saturatingEnd address length).toNat = min (address.toNat + length) wordMax := by
  apply UInt64.toNat_ofNat_of_lt'
  simp only [wordMax, UInt64.size]
  omega

theorem Extent.cover_low (extent : Extent) (start stop : UInt64) :
    (extent.cover start stop).low.toNat = min extent.low.toNat start.toNat := by
  change (if extent.low ≤ start then extent.low else start).toNat = _
  simp only [UInt64.le_iff_toNat_le, Nat.min_def]
  split <;> rfl

theorem Extent.cover_high (extent : Extent) (start stop : UInt64) :
    (extent.cover start stop).high.toNat = max extent.high.toNat stop.toNat := by
  change (if extent.high ≤ stop then stop else extent.high).toNat = _
  simp only [UInt64.le_iff_toNat_le, Nat.max_def]
  split <;> rfl

theorem Extent.low_add_size (ordered : extent.low ≤ extent.high) :
    extent.low.toNat + (extent.high - extent.low).toNat = extent.high.toNat := by
  rw [UInt64.toNat_sub_of_le _ _ ordered]
  rw [UInt64.le_iff_toNat_le] at ordered
  omega

/-- Where the segment ends, if that is an address. -/
def top (header : Segment) : Nat :=
  min header.stop wordMax

/-- The span starts at the greatest address that no segment starts below, and ends at the least that no
segment ends above. -/
theorem span_bounds (extent : Extent) (headers : List Segment) (bound : Nat) :
    (bound ≤ (span extent headers).low.toNat ↔
      bound ≤ extent.low.toNat ∧ ∀ header ∈ headers, bound ≤ header.address.toNat) ∧
    ((span extent headers).high.toNat ≤ bound ↔
      extent.high.toNat ≤ bound ∧ ∀ header ∈ headers, top header ≤ bound) := by
  induction headers generalizing extent with
  | nil => simp [span]
  | cons header rest ih =>
      obtain ⟨low, high⟩ := ih (extent.cover header.address
        (saturatingEnd header.address header.memorySize.toNat))
      rw [span, List.foldl_cons, ← span, low, high, Extent.cover_low, Extent.cover_high,
        saturatingEnd_toNat, Nat.le_min, Nat.max_le, and_assoc, and_assoc, List.forall_mem_cons,
        List.forall_mem_cons]
      exact ⟨Iff.rfl, Iff.rfl⟩

theorem span_low_le (extent : Extent) (member : header ∈ headers) :
    (span extent headers).low.toNat ≤ header.address.toNat :=
  ((span_bounds extent headers _).1.mp (Nat.le_refl _)).2 header member

theorem le_span_high (extent : Extent) (member : header ∈ headers) :
    top header ≤ (span extent headers).high.toNat :=
  ((span_bounds extent headers _).2.mp (Nat.le_refl _)).2 header member

/-- The span of some segments starts where one of them does, and ends where one of them does. -/
theorem span_attained (loads : headers ≠ []) :
    (∃ header ∈ headers, header.address.toNat = (span .empty headers).low.toNat) ∧
      ∃ header ∈ headers, top header = (span .empty headers).high.toNat := by
  obtain ⟨first, member⟩ := List.exists_mem_of_ne_nil headers loads
  constructor
  · refine Classical.byContradiction fun unattained => ?_
    have beyond (header : Segment) (there : header ∈ headers) :
        (span .empty headers).low.toNat + 1 ≤ header.address.toNat :=
      Nat.lt_of_le_of_ne (span_low_le .empty there) fun same => unattained ⟨header, there, same.symm⟩
    have bound := beyond first member
    have last := first.address.toNat_lt
    have limit : Extent.empty.low.toNat = wordMax := rfl
    have higher := (span_bounds .empty headers _).1.mpr
      ⟨by rw [limit, wordMax, UInt64.size]; omega, beyond⟩
    omega
  · refine Classical.byContradiction fun unattained => ?_
    have beyond (header : Segment) (there : header ∈ headers) :
        top header + 1 ≤ (span .empty headers).high.toNat :=
      Nat.lt_of_le_of_ne (le_span_high .empty there) fun same => unattained ⟨header, there, same⟩
    have positive := beyond first member
    have bottom : Extent.empty.high.toNat = 0 := rfl
    have lower := (span_bounds .empty headers ((span .empty headers).high.toNat - 1)).2.mpr
      ⟨by omega, fun header there => Nat.le_sub_one_of_lt (beyond header there)⟩
    omega

theorem span_ordered (loads : headers ≠ []) :
    (span .empty headers).low ≤ (span .empty headers).high := by
  obtain ⟨header, member⟩ := List.exists_mem_of_ne_nil headers loads
  have below := span_low_le .empty member
  have above := le_span_high .empty member
  have last := header.address.toNat_lt
  simp only [top, Segment.stop, wordMax, UInt64.size] at above
  rw [UInt64.le_iff_toNat_le]
  omega

theorem headerDefect?_eq_none_iff {header : Elf.Header} :
    headerDefect? header = none ↔ header.order = .little ∧
      header.type = Elf.executableType ∧ header.machine = Elf.riscvMachine := by
  simp only [headerDefect?]
  split
  · simp_all
  · split
    · simp_all
    · split <;> simp_all

/-- The file has been put into RAM, and the image is the span of its segments. -/
structure Loaded (bytes : Array UInt8) (file : File) (before after : Memory) (image : Image) :
    Prop where
  sound : headerDefect? file.header = none
  loads : loadable file ≠ []
  fits : ∀ header ∈ loadable file, header.Fits bytes before
  patched : before.Patched (overlay bytes (loadable file)) after
  ordered : (span .empty (loadable file)).low ≤ (span .empty (loadable file)).high
  image : image = ⟨file.header.entry, (span .empty (loadable file)).low,
    (span .empty (loadable file)).high - (span .empty (loadable file)).low⟩

/-- What becomes of a file. -/
inductive Verdict (file : File) (bytes : Array UInt8) (before : Memory) : Loading → Prop where
  | kept (cause : LoadError)
      (reason : headerDefect? file.header ≠ none ∨ loadable file = []) :
      Verdict file bytes before ⟨before, .error (.refused cause)⟩
  | stopped (sound : headerDefect? file.header = none) {after : Memory}
      (short : CutShort bytes before after (loadable file)) (cause : LoadError) :
      Verdict file bytes before ⟨after, .error (.refused cause)⟩
  | overflowed (sound : headerDefect? file.header = none)
      (overflow : Overflow bytes before (loadable file)) (copied : Memory) :
      Verdict file bytes before ⟨copied, .error .overflow⟩
  | loaded {after : Memory} {image : Image} (loaded : Loaded bytes file before after image) :
      Verdict file bytes before ⟨after, .ok image⟩

theorem ofFile_verdict (lawful : reader.Lawful) (bytes : Array UInt8) (file : File)
    (memory : Memory) :
    Verdict file bytes memory (ofFile reader memory bytes file) := by
  simp only [ofFile]
  cases defect : headerDefect? file.header with
  | some found => exact .kept _ (.inl (by simp [defect]))
  | none =>
      by_cases vacant : loadable file = []
      · rw [vacant]
        exact .kept _ (.inr vacant)
      · have progress := segments_progress lawful bytes (loadable file) memory .empty
        dsimp only
        generalize segments reader bytes memory .empty (loadable file) = outcome at progress ⊢
        cases progress with
        | refused short cause => exact .stopped defect short cause
        | overflowed overflow copied => exact .overflowed defect overflow copied
        | placed fits patched =>
            have ordered := span_ordered vacant
            simp only [if_neg (UInt64.not_lt.mpr ordered)]
            exact .loaded ⟨defect, vacant, fits, patched, ordered, rfl⟩

/-- Behind the bytes of the file a segment puts zeros. -/
theorem byte?_some {address : Nat} {byte : UInt8} (puts : header.byte? bytes address = some byte) :
    header.address.toNat ≤ address ∧ (address < header.dataStop ∨ byte = 0) := by
  simp only [Segment.byte?, Segment.content?, Segment.covers, Bool.and_eq_true,
    decide_eq_true_eq] at puts
  split at puts
  · rename_i covered
    split at puts
    · rename_i data
      exact ⟨covered.1, .inl data⟩
    · cases puts
      exact ⟨covered.1, .inr rfl⟩
  · cases puts

theorem overlay_some {address : Nat} {byte : UInt8}
    (found : overlay bytes headers address = some byte) :
    ∃ header ∈ headers, header.byte? bytes address = some byte := by
  obtain ⟨header, member, puts⟩ := List.exists_of_findSome?_eq_some found
  exact ⟨header, List.mem_reverse.mp member, puts⟩

/-- Outside the image a byte can only be cleared, as the tail of a segment that ends beyond the last
address. -/
theorem Loaded.confined (loaded : Loaded bytes file memory after image) :
    memory.ConfinedTo image.start.toNat (image.start.toNat + image.size.toNat) after ∧
      image.Inside memory := by
  obtain ⟨_, _, fits, patched, ordered, rfl⟩ := loaded
  have stop := Extent.low_add_size ordered
  have start := memory.base.toNat_lt
  have limit : Extent.empty.low.toNat = wordMax := rfl
  have bottom : Extent.empty.high.toNat = 0 := rfl
  refine ⟨⟨patched.base, patched.size, fun i bound apart => ?_⟩, ?_, ?_⟩
  · rw [patched.byte i bound]
    cases found : overlay bytes (loadable file) (memory.base.toNat + i) with
    | none => exact .inl rfl
    | some byte =>
        obtain ⟨header, member, puts⟩ := overlay_some found
        have placed := fits header member
        have below := span_low_le .empty member
        have above := le_span_high .empty member
        have last := placed.below
        have room := Segment.dataStop_le_stop placed.shorter
        simp only [top, wordMax, UInt64.size] at above last
        obtain ⟨lower, data | rfl⟩ := byte?_some puts
        · dsimp only at apart
          omega
        · exact .inr rfl
  · exact (span_bounds .empty _ _).1.mpr
      ⟨by rw [limit, wordMax, UInt64.size]; omega, fun header member => (fits header member).inside.1⟩
  · rw [stop]
    refine (span_bounds .empty _ _).2.mpr ⟨by omega, fun header member => ?_⟩
    exact Nat.le_trans (Nat.min_le_left _ _) (fits header member).inside.2

theorem ofFile_accepted (lawful : reader.Lawful)
    (accepted : (ofFile reader memory bytes file).result = .ok image) :
    Loaded bytes file memory (ofFile reader memory bytes file).memory image := by
  have verdict := ofFile_verdict lawful bytes file memory
  generalize ofFile reader memory bytes file = loading at verdict accepted ⊢
  cases verdict with
  | loaded loaded =>
      cases accepted
      exact loaded
  | _ => cases accepted

theorem elf_accepted (lawful : reader.Lawful)
    (accepted : (elf reader memory bytes).result = .ok image) :
    ∃ file, reader.file? bytes = some file ∧
      Loaded bytes file memory (elf reader memory bytes).memory image := by
  simp only [elf] at accepted ⊢
  cases parsed : reader.file? bytes with
  | none => simp [parsed] at accepted
  | some file =>
      simp only [parsed] at accepted
      exact ⟨file, rfl, ofFile_accepted lawful accepted⟩

theorem raw_confined {contents : List UInt8}
    (accepted : (raw memory contents).result = .ok image) :
    memory.ConfinedTo image.start.toNat (image.start.toNat + image.size.toNat)
        (raw memory contents).memory ∧
      image.Inside memory := by
  unfold raw at accepted ⊢
  cases copy : memory.load? memory.base contents with
  | none => simp [copy] at accepted
  | some loaded =>
      simp only [copy, Except.ok.injEq] at accepted
      subst accepted
      obtain ⟨offset, found, _⟩ := Option.map_eq_some_iff.mp copy
      obtain ⟨_, _, fits⟩ := Memory.offset?_bound found
      have ramBound := memory.size.toNat_lt
      have size : (UInt64.ofNat contents.length).toNat = contents.length :=
        UInt64.toNat_ofNat_of_lt' (by simp only [UInt64.size]; omega)
      have confined := Memory.load?_confined copy
      rw [← size] at confined fits
      exact ⟨confined, Nat.le_refl _, by dsimp only; omega⟩

/-- Whatever image is loaded, RAM changes inside its range, and outside of it a byte can only be
cleared. -/
theorem ofBytes_confined (lawful : reader.Lawful)
    (accepted : (ofBytes reader memory bytes).result = .ok image) :
    memory.ConfinedTo image.start.toNat (image.start.toNat + image.size.toNat)
        (ofBytes reader memory bytes).memory ∧
      image.Inside memory := by
  unfold ofBytes at accepted ⊢
  split at accepted
  · rename_i magic
    rw [if_pos magic]
    obtain ⟨_, _, loaded⟩ := elf_accepted lawful accepted
    exact loaded.confined
  · rename_i plain
    rw [if_neg plain]
    exact raw_confined accepted

/-- A refused image leaves RAM as it was, unless it is a file with a bad segment. -/
theorem ofBytes_refused (lawful : reader.Lawful) {cause : LoadError}
    (refused : (ofBytes reader memory bytes).result = .error (.refused cause)) :
    (ofBytes reader memory bytes).memory = memory ∨
      ∃ file, reader.file? bytes = some file ∧ headerDefect? file.header = none ∧
        CutShort bytes memory (ofBytes reader memory bytes).memory (loadable file) := by
  unfold ofBytes at refused ⊢
  split at refused
  · rename_i magic
    rw [if_pos magic]
    unfold elf at refused ⊢
    cases parsed : reader.file? bytes with
    | none => exact .inl rfl
    | some file =>
        have verdict := ofFile_verdict lawful bytes file memory
        simp only [parsed] at refused ⊢
        generalize ofFile reader memory bytes file = loading at verdict refused ⊢
        cases verdict with
        | kept => exact .inl rfl
        | stopped sound short => exact .inr ⟨file, rfl, sound, short⟩
        | _ => cases refused
  · rename_i plain
    rw [if_neg plain]
    unfold raw at refused ⊢
    cases copy : memory.load? memory.base bytes.toList with
    | none => exact .inl rfl
    | some loaded => simp [copy] at refused

theorem builtin_accepted (accepted : (builtin memory).result = .ok image) :
    memory.load? memory.base builtinBytes = some (builtin memory).memory := by
  simp only [builtin] at accepted ⊢
  split at accepted
  · cases accepted
  · cases accepted
  · rename_i sum copy
    simp only [copy]

/-- Blank RAM with the built-in program at its start. -/
theorem builtin_byte (accepted : (builtin memory).result = .ok image)
    (blank : ∀ i < memory.size.toNat, memory.byte i = 0) :
    (builtin memory).memory.base = memory.base ∧ (builtin memory).memory.size = memory.size ∧
      ∀ i < memory.size.toNat, (builtin memory).memory.byte i = builtinBytes[i]?.getD 0 := by
  have copy := builtin_accepted accepted
  obtain ⟨offset, found, _⟩ := Option.map_eq_some_iff.mp copy
  obtain ⟨base, size⟩ := Memory.load?_place copy
  obtain ⟨_, position, _⟩ := Memory.offset?_bound found
  refine ⟨base, size, fun i bound => ?_⟩
  rw [Memory.load?_byte copy found bound, blank i bound, position, Nat.sub_self]
  split
  · rfl
  · rename_i beyond
    rw [List.getElem?_eq_none (by omega)]
    rfl

end HartScope.Loading
