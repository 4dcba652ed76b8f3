import HartScope.Proofs.Bus.Windows
import HartScope.Proofs.Device.Bytewise

/-!
What the position of the device that served last is worth.  The bus asks that device first, and only then
the devices in order of their windows.  Where no two windows let the same access through this is the
same as asking all of them in order; where two do, the one that served last keeps the access.
-/

namespace HartScope

/-- A device whose window stays where it is. -/
class Device.Stationary (δ : Type) [Device δ] : Prop where
  read (device : δ) (width : Width) (offset : UInt64) :
    window (Device.read device width offset).2 = window device
  write (device : δ) (width : Width) (offset value : UInt64) :
    window (Device.write device width offset value).1 = window device
  update (device : δ) : window (Device.update device) = window device

namespace Serial

theorem transmit_base (serial : Serial) (byte : UInt8) :
    (serial.transmit byte).1.base = serial.base := by
  simp only [transmit]
  split <;> rfl

theorem writeByte_base (serial : Serial) (offset : UInt64) (byte : UInt8) :
    (serial.writeByte offset byte).1.base = serial.base := by
  simp only [writeByte]
  split
  · exact serial.transmit_base byte
  · rfl

theorem read_base (serial : Serial) (width : Width) (offset : UInt64) :
    (Device.read serial width offset).2.base = serial.base := by
  rw [Device.read]
  cases read : Device.read? serial width offset with
  | none => rfl
  | some told => exact Device.readWide?_preserves (fun _ _ => rfl) read

theorem write_base (serial : Serial) (width : Width) (offset value : UInt64) :
    (Device.write serial width offset value).1.base = serial.base := by
  rw [Device.write]
  cases stored : Device.write? serial width offset value with
  | none => rfl
  | some written =>
      cases width with
      | byte | half => exact Device.writeWide?_preserves writeByte_base stored
      | word | double =>
          cases stored
          exact serial.writeByte_base _ _

instance : Device.Stationary Serial where
  read serial width offset := congrArg (Window.mk · 8) (serial.read_base width offset)
  write serial width offset value :=
    congrArg (Window.mk · 8) (serial.write_base width offset value)
  update _ := rfl

end Serial

namespace Timer

theorem readByte_base (timer : Timer) (offset : UInt64) :
    (timer.readByte offset).2.base = timer.base :=
  rfl

theorem readWord_base (timer : Timer) (offset : UInt64) :
    (timer.readWord offset).2.base = timer.base := by
  simp only [readWord]
  split
  · rfl
  · split <;> rfl

theorem readDouble_base (timer : Timer) (offset : UInt64) :
    (timer.readDouble offset).2.base = timer.base := by
  simp only [readDouble]
  split <;> rfl

theorem read_base (timer : Timer) (width : Width) (offset : UInt64) :
    (Device.read timer width offset).2.base = timer.base := by
  change ((timer.read? width offset).getD (0, timer)).2.base = _
  cases read : timer.read? width offset with
  | none => rfl
  | some told =>
      cases width with
      | byte | half =>
          rw [Timer.read?] at read
          exact Device.readWide?_preserves readByte_base read
      | word =>
          cases read
          exact timer.readWord_base offset
      | double =>
          cases read
          exact timer.readDouble_base offset

theorem write_base (timer : Timer) (width : Width) (offset value : UInt64) :
    (Device.write timer width offset value).1.base = timer.base := by
  rw [Device.write]
  cases stored : Device.write? timer width offset value with
  | none => rfl
  | some written => exact Device.writeWide?_preserves (fun _ _ _ => rfl) stored

instance : Device.Stationary Timer where
  read timer width offset := congrArg (Window.mk · 8) (timer.read_base width offset)
  write timer width offset value :=
    congrArg (Window.mk · 8) (timer.write_base width offset value)
  update _ := rfl

end Timer

namespace Device

variable {δ ε : Type} [Device δ] [Device ε]

theorem read_inl (device : δ) (width : Width) (offset : UInt64) :
    Device.read (.inl device : δ ⊕ ε) width offset =
      (Device.read device width offset).map id .inl :=
  Option.getD_map (Prod.map id Sum.inl) (0, device) (Device.read? device width offset)

theorem read_inr (device : ε) (width : Width) (offset : UInt64) :
    Device.read (.inr device : δ ⊕ ε) width offset =
      (Device.read device width offset).map id .inr :=
  Option.getD_map (Prod.map id Sum.inr) (0, device) (Device.read? device width offset)

theorem write_inl (device : δ) (width : Width) (offset value : UInt64) :
    Device.write (.inl device : δ ⊕ ε) width offset value =
      (Device.write device width offset value).map .inl id :=
  Option.getD_map (Prod.map Sum.inl id) (device, []) (Device.write? device width offset value)

theorem write_inr (device : ε) (width : Width) (offset value : UInt64) :
    Device.write (.inr device : δ ⊕ ε) width offset value =
      (Device.write device width offset value).map .inr id :=
  Option.getD_map (Prod.map Sum.inr id) (device, []) (Device.write? device width offset value)

end Device

instance {δ ε : Type} [Device δ] [Device ε] [Device.Stationary δ] [Device.Stationary ε] :
    Device.Stationary (δ ⊕ ε) where
  read
    | .inl device, width, offset => by
        rw [Device.read_inl]
        exact Device.Stationary.read device width offset
    | .inr device, width, offset => by
        rw [Device.read_inr]
        exact Device.Stationary.read device width offset
  write
    | .inl device, width, offset, value => by
        rw [Device.write_inl]
        exact Device.Stationary.write device width offset value
    | .inr device, width, offset, value => by
        rw [Device.write_inr]
        exact Device.Stationary.write device width offset value
  update
    | .inl device => Device.Stationary.update device
    | .inr device => Device.Stationary.update device

namespace Bus

theorem Request.inside_or_outside (request : Request) (ram : Memory) :
    (∀ range ∈ request.range?, ram.Holds range.1 range.2) ∨
      ∃ address length, request.range? = some (address, length) ∧
        ¬ram.Holds address length := by
  refine Classical.or_iff_not_imp_left.mpr fun beyond => ?_
  simpa using beyond

/-- What happens to a bus: a device joins, a request is served, or the devices are updated. -/
inductive Operation (δ : Type) where
  | add (device : δ)
  | request (request : Request)
  | update

variable {δ : Type} [Device δ]

def perform (bus : Bus δ) : Operation δ → Bus δ
  | .add device => bus.add device
  | .request request => (bus.serve request).bus
  | .update => bus.update

def performAll (bus : Bus δ) (operations : List (Operation δ)) : Bus δ :=
  operations.foldl perform bus

/-- The windows of the devices that join. -/
def addedWindows (operations : List (Operation δ)) : List Window :=
  operations.filterMap fun
    | .add device => some (Device.window device)
    | .request _ | .update => none

theorem addedWindows_cons (operation : Operation δ) (operations : List (Operation δ)) :
    addedWindows (operation :: operations) =
      addedWindows [operation] ++ addedWindows operations := by
  simp only [addedWindows, ← List.filterMap_append, List.singleton_append]

/-- What a bus answers and sends during a sequence of operations, if `server` is how it serves. -/
def transcript (server : Bus δ → Request → Response δ) :
    Bus δ → List (Operation δ) → List (Answer × List Output)
  | _, [] => []
  | bus, .add device :: rest => transcript server (bus.add device) rest
  | bus, .request request :: rest =>
      let response := server bus request
      (response.answer, response.output) :: transcript server response.bus rest
  | bus, .update :: rest => transcript server bus.update rest

def windows (bus : Bus δ) : List Window :=
  bus.devices.map Device.window

/-- The first device, in order of the windows, that claims the whole access. -/
def first? (bus : Bus δ) (address : UInt64) (length : Nat) : Option (Nat × δ) :=
  (bus.scan? address length).bind fun position =>
    bus.devices[position]?.map fun device => (position, device)

/-- The device that is asked first, since it served last. -/
def hinted? (bus : Bus δ) : Option (Nat × δ) :=
  bus.devices[bus.hint]?.map fun device => (bus.hint, device)

/-- How the bus would serve a request if it asked the devices in order of their windows, whichever served
last. -/
def scanServe (bus : Bus δ) (request : Request) : Response δ :=
  bus.serveVia bus.first? request

/-- The device that served last claims the access, and so does one before it. -/
def Contests (bus : Bus δ) (address : UInt64) (length : Nat) : Prop :=
  ∃ position earlier last, position < bus.hint ∧ bus.devices[position]? = some earlier ∧
    bus.devices[bus.hint]? = some last ∧
    (Device.window earlier).covers address length = true ∧
    (Device.window last).covers address length = true

theorem route?_cases (bus : Bus δ) (address : UInt64) (length : Nat) :
    bus.route? address length = bus.scan? address length ∨
      bus.Contests address length ∧ bus.route? address length = some bus.hint := by
  cases hinted : bus.devices[bus.hint]? with
  | none => simp only [route?, hinted, true_or]
  | some last =>
      by_cases claimed : (Device.window last).covers address length = true
      · have kept : bus.route? address length = some bus.hint := by
          simp only [route?, hinted, if_pos claimed]
        cases scanned : bus.scan? address length with
        | none =>
            have unclaimed := List.findIdx?_eq_none_iff.mp scanned last (List.mem_of_getElem? hinted)
            simp [claimed] at unclaimed
        | some position =>
            obtain ⟨inside, covered, before⟩ := List.findIdx?_eq_some_iff_getElem.mp scanned
            obtain ⟨_, present⟩ := List.getElem?_eq_some_iff.mp hinted
            rcases Nat.lt_trichotomy position bus.hint with less | same | greater
            · exact .inr ⟨⟨position, _, last, less, List.getElem?_eq_getElem inside, hinted, covered,
                claimed⟩, kept⟩
            · exact .inl (by rw [kept, same])
            · have passed := before bus.hint greater
              rw [present, claimed] at passed
              contradiction
      · simp only [route?, hinted, if_neg claimed, true_or]

theorem target?_cases (bus : Bus δ) (address : UInt64) (length : Nat) :
    bus.target? address length = bus.first? address length ∨
      bus.Contests address length ∧ bus.target? address length = bus.hinted? := by
  rcases bus.route?_cases address length with same | ⟨contested, hinted⟩
  · exact .inl (by rw [target?, same, first?])
  · exact .inr ⟨contested, by rw [target?, hinted, Option.bind_some, hinted?]⟩

/-- Nobody is found exactly if a scan finds nobody, whichever device served last. -/
theorem target?_eq_none_iff (bus : Bus δ) (address : UInt64) (length : Nat) :
    bus.target? address length = none ↔ bus.first? address length = none := by
  rcases bus.target?_cases address length with same | ⟨contested, hinted⟩
  · rw [same]
  · obtain ⟨position, earlier, last, _, present, standing, covered, _⟩ := contested
    have claimed : (bus.scan? address length).isSome = true :=
      List.findIdx?_isSome.trans
        (List.any_eq_true.mpr ⟨earlier, List.mem_of_getElem? present, covered⟩)
    obtain ⟨found, scanned⟩ := Option.isSome_iff_exists.mp claimed
    obtain ⟨device, there, _⟩ := scan?_claims scanned
    simp [hinted, hinted?, standing, first?, scanned, there]

/-- The request is an access outside RAM that the device that served last keeps from an earlier one. -/
def Contested (bus : Bus δ) (request : Request) : Prop :=
  ∃ range ∈ request.range?, ¬bus.ram.Holds range.1 range.2 ∧ bus.Contests range.1 range.2

theorem settle_isRefusal {bus : Bus δ} {address : UInt64} {request : Request}
    {range : UInt64 × Nat} (accessed : request.range? = some range) (claim : Option (Nat × δ)) :
    (bus.settle address request claim).answer.isRefusal = claim.isNone := by
  cases claim with
  | none => exact Request.refusal_isRefusal accessed
  | some claim => exact bus.deliver_answer _ _ _ request

theorem serve_isRefusal_eq_scanServe (bus : Bus δ) (request : Request) :
    (bus.serve request).answer.isRefusal = (bus.scanServe request).answer.isRefusal := by
  rw [serve_eq_serveVia, scanServe]
  rcases request.inside_or_outside bus.ram with inside | ⟨address, length, range, outside⟩
  · rw [serveVia_inside inside]
  · rw [serveVia_outside range outside, serveVia_outside range outside, settle_isRefusal range,
      settle_isRefusal range, Bool.eq_iff_iff, Option.isNone_iff_eq_none, Option.isNone_iff_eq_none]
    exact bus.target?_eq_none_iff address length

theorem serve_eq_scanServe_or (bus : Bus δ) (request : Request) :
    bus.serve request = bus.scanServe request ∨
      bus.Contested request ∧
        bus.serve request = bus.serveVia (fun _ _ => bus.hinted?) request := by
  rw [serve_eq_serveVia, scanServe]
  rcases request.inside_or_outside bus.ram with inside | ⟨address, length, range, outside⟩
  · exact .inl (serveVia_inside inside _ _)
  · simp only [serveVia_outside range outside]
    rcases bus.target?_cases address length with same | ⟨contested, hinted⟩
    · exact .inl (by rw [same])
    · exact .inr ⟨⟨_, range, outside, contested⟩, by rw [hinted]⟩

/-- Where no two windows let the same access through, none is contested. -/
theorem not_contested {bus : Bus δ} (apart : bus.windows.Pairwise Window.Apart)
    (request : Request) : ¬bus.Contested request := by
  rintro ⟨⟨address, length⟩, range, _, position, earlier, last, less, present, standing, covered,
    claimed⟩
  obtain ⟨inside, rfl⟩ := List.getElem?_eq_some_iff.mp present
  obtain ⟨hintInside, rfl⟩ := List.getElem?_eq_some_iff.mp standing
  rw [windows, List.pairwise_map] at apart
  exact List.pairwise_iff_getElem.mp apart position bus.hint inside hintInside less address length
    (Request.range_positive range) ⟨covered, claimed⟩

theorem add_windows (bus : Bus δ) (device : δ) :
    (bus.add device).windows.Perm (bus.windows ++ [Device.window device]) := by
  have sorted := (List.mergeSort_perm (bus.devices ++ [device]) startsBefore).map Device.window
  rwa [List.map_append] at sorted

theorem served_windows {bus : Bus δ} {position : Nat} {device after : δ}
    (standing : bus.devices[position]? = some device)
    (stationary : Device.window after = Device.window device) :
    (bus.served position after).windows = bus.windows := by
  obtain ⟨inside, rfl⟩ := List.getElem?_eq_some_iff.mp standing
  have placed : position < (bus.devices.map Device.window).length := by simpa using inside
  have window : (bus.devices.map Device.window)[position] = Device.window bus.devices[position] :=
    List.getElem_map _
  rw [windows, served, List.map_set, stationary, ← window, List.set_getElem_self, windows]

variable [Device.Stationary δ]

theorem deliver_windows {bus : Bus δ} {position : Nat} {device : δ}
    (standing : bus.devices[position]? = some device) (offset : UInt64) (request : Request) :
    (bus.deliver position device offset request).bus.windows = bus.windows := by
  cases request with
  | read address width kind =>
      exact served_windows standing (Device.Stationary.read device width offset)
  | write address width value =>
      exact served_windows standing (Device.Stationary.write device width offset value)
  | takeTouched => rfl

theorem serve_windows (bus : Bus δ) (request : Request) :
    (bus.serve request).bus.windows = bus.windows := by
  rw [serve_eq_serveVia, serveVia]
  split
  · rfl
  · split
    · rfl
    · rename_i address length _ _ _
      cases chosen : bus.target? address length with
      | none => rfl
      | some claim => exact deliver_windows (target?_claims chosen).1 _ request

theorem update_windows (bus : Bus δ) : bus.update.windows = bus.windows := by
  simp [windows, update, Device.Stationary.update]

theorem perform_windows (bus : Bus δ) (operation : Operation δ) :
    (bus.perform operation).windows.Perm (bus.windows ++ addedWindows [operation]) := by
  cases operation with
  | add device => exact bus.add_windows device
  | request request => simp [perform, serve_windows, addedWindows]
  | update => simp [perform, update_windows, addedWindows]

/-- The windows after an operation and those still to come are those before it and those to come. -/
theorem perform_windows_append (bus : Bus δ) (operation : Operation δ)
    (rest : List (Operation δ)) :
    ((bus.perform operation).windows ++ addedWindows rest).Perm
      (bus.windows ++ addedWindows (operation :: rest)) := by
  have performed := (bus.perform_windows operation).append_right (addedWindows rest)
  rwa [List.append_assoc, ← addedWindows_cons] at performed

/-- The windows of the devices on the bus are those of the devices that have joined. -/
theorem performAll_windows (bus : Bus δ) (operations : List (Operation δ)) :
    (bus.performAll operations).windows.Perm (bus.windows ++ addedWindows operations) := by
  induction operations generalizing bus with
  | nil => simp [performAll, addedWindows]
  | cons operation rest ih =>
      exact (ih (bus.perform operation)).trans (bus.perform_windows_append operation rest)

/-- A device that joins is put where its window belongs, and nothing else moves a device. -/
theorem perform_sorted {bus : Bus δ} (sorted : bus.windows.Pairwise (·.start ≤ ·.start))
    (operation : Operation δ) :
    (bus.perform operation).windows.Pairwise (·.start ≤ ·.start) := by
  cases operation with
  | add device =>
      have ordered : ((bus.devices ++ [device]).mergeSort startsBefore).Pairwise
          (fun first second => startsBefore first second = true) := by
        refine List.pairwise_mergeSort ?_ ?_ _
        · simp only [startsBefore, decide_eq_true_eq]
          exact fun _ _ _ => UInt64.le_trans
        · simp only [startsBefore, Bool.or_eq_true, decide_eq_true_eq]
          exact fun _ _ => UInt64.le_total _ _
      simpa only [startsBefore, decide_eq_true_eq, perform, add, windows, List.pairwise_map]
        using ordered
  | request request =>
      rw [perform, serve_windows]
      exact sorted
  | update =>
      rw [perform, update_windows]
      exact sorted

theorem performAll_sorted {bus : Bus δ} (sorted : bus.windows.Pairwise (·.start ≤ ·.start))
    (operations : List (Operation δ)) :
    (bus.performAll operations).windows.Pairwise (·.start ≤ ·.start) := by
  induction operations generalizing bus with
  | nil => exact sorted
  | cons operation rest ih => exact ih (perform_sorted sorted operation)

/-- With windows that are apart a bus tells the same story whether or not it remembers who served last. -/
theorem transcript_eq {bus : Bus δ} {operations : List (Operation δ)}
    (apart : (bus.windows ++ addedWindows operations).Pairwise Window.Apart) :
    transcript serve bus operations = transcript scanServe bus operations := by
  induction operations generalizing bus with
  | nil => rfl
  | cons operation rest ih =>
      have onward := bus.perform_windows_append operation rest
      have later : transcript serve (bus.perform operation) rest =
          transcript scanServe (bus.perform operation) rest :=
        ih ((onward.pairwise_iff Window.Apart.symm).mpr apart)
      cases operation with
      | add device => exact later
      | update => exact later
      | request request =>
          have present : bus.windows.Pairwise Window.Apart := (List.pairwise_append.mp apart).1
          have same : bus.serve request = bus.scanServe request :=
            (bus.serve_eq_scanServe_or request).resolve_right fun contested =>
              not_contested present request contested.1
          rw [perform] at later
          simp only [transcript, ← same, later]

/-- Whatever windows the devices have that join a bus, an access fails exactly if a scan of the devices in
order of their windows would fail, and the device that such a scan finds serves it, unless the one
that served last claims it, too, and stands later: then that one does.  So where no two windows let
the same access through the bus does not depend on which device served last. -/
theorem hint_decides_only_contested (ram : Memory) (operations : List (Operation δ)) :
    let start : Bus δ := { ram := ram }
    let bus := start.performAll operations
    bus.windows.Perm (addedWindows operations) ∧
      bus.windows.Pairwise (·.start ≤ ·.start) ∧
      (∀ request,
        (bus.serve request).answer.isRefusal = (bus.scanServe request).answer.isRefusal ∧
        (bus.serve request = bus.scanServe request ∨
          bus.Contested request ∧
            bus.serve request = bus.serveVia (fun _ _ => bus.hinted?) request)) ∧
      ((addedWindows operations).Pairwise Window.Apart →
        transcript serve start operations = transcript scanServe start operations) :=
  ⟨performAll_windows _ operations, performAll_sorted .nil operations,
    fun request => ⟨serve_isRefusal_eq_scanServe _ request, serve_eq_scanServe_or _ request⟩,
    fun apart => transcript_eq apart⟩

/-- A serial line and a timer join, and each of them is used. -/
def boardOperations : List (Operation Peripheral) :=
  Peripheral.defaults.map .add ++
    [.request (.write Peripheral.serialBase .byte 72),
      .request (.read (Peripheral.timerBase + 4) .word .read), .update,
      .request (.write Peripheral.serialBase .byte 10)]

theorem board_ignores_last_server :
    Device.Stationary Peripheral ∧
      transcript serve { ram := Memory.new 0x80000000 64 } boardOperations =
        transcript scanServe { ram := Memory.new 0x80000000 64 } boardOperations := by
  refine ⟨inferInstance, ?_⟩
  have apart : (addedWindows boardOperations).Pairwise Window.Apart :=
    List.pairwise_pair.mpr (Window.Apart.of_disjoint (by decide) (by decide) (.inr (by decide)))
  exact (hint_decides_only_contested (Memory.new 0x80000000 64) boardOperations).2.2.2 apart

/-- Two serial lines whose windows overlap. -/
def overlappingOperations : List (Operation Serial) :=
  [.add { base := 0x1000 }, .add { base := 0x1004 }, .request (.write 0x1008 .byte 65)]

theorem overlapping_bus :
    ({ ram := Memory.new 0x80000000 64 } : Bus Serial).performAll overlappingOperations =
      { ram := Memory.new 0x80000000 64, devices := [{ base := 0x1000 }, { base := 0x1004 }],
        hint := 1, touched := true } := by
  have first : [({ base := 0x1000 } : Serial)].mergeSort startsBefore = [{ base := 0x1000 }] :=
    List.mergeSort_of_pairwise (List.pairwise_singleton _ _)
  have second : [({ base := 0x1000 } : Serial), { base := 0x1004 }].mergeSort startsBefore =
      [{ base := 0x1000 }, { base := 0x1004 }] :=
    List.mergeSort_of_pairwise (List.pairwise_pair.mpr (by decide))
  simp only [overlappingOperations, performAll, List.foldl_cons, List.foldl_nil, perform, add,
    List.nil_append, List.cons_append, first, second]
  rfl

/-- The second line has served last and sends a newline that a scan would have given to the first. -/
theorem last_server_keeps_overlap :
    ¬∀ (operations : List (Operation Serial)) (request : Request),
      let start : Bus Serial := { ram := Memory.new 0x80000000 64 }
      let bus := start.performAll operations
      (bus.serve request).output = (bus.scanServe request).output := by
  intro alike
  have sent := alike overlappingOperations (.write 0x1004 .byte 10)
  simp only [overlapping_bus] at sent
  exact absurd sent (by decide +kernel)

end Bus

end HartScope
