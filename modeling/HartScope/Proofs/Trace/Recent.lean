import HartScope.Trace.Ring
import Mathlib.Data.List.Rotate

/-!
What a ring holds.  While it grows its slots are the entries in the order of their pushes; from then on
they are that order turned round, so that the oldest entry stands behind the newest.  Either way the
ring holds the last entries that were pushed, as many as fit, and prints each of them once.
-/

namespace HartScope.Ring

variable {α : Type} {ring : Ring α}

def pushAll (ring : Ring α) (entries : List α) : Ring α :=
  entries.foldl push ring

/-- The last entries of a history, as many as fit the capacity. -/
def recent (capacity : Nat) (entries : List α) : List α :=
  entries.drop (entries.length - capacity)

/-- The slot behind the newest entry, or the first one as long as the ring is not full. -/
def oldestSlot (ring : Ring α) : Nat :=
  if ring.size < ring.capacity then 0 else ring.nextSlot

def shown (mark : String) (line : α → String) (entry : α) : String :=
  mark ++ " " ++ line entry ++ "\n"

theorem recent_length (capacity : Nat) (entries : List α) :
    (recent capacity entries).length = min entries.length capacity := by
  rw [recent, List.length_drop]
  omega

@[simp] theorem recent_nil (capacity : Nat) : recent capacity ([] : List α) = [] :=
  List.drop_nil

theorem recent_of_length_le {capacity : Nat} {entries : List α} (fits : entries.length ≤ capacity) :
    recent capacity entries = entries := by
  rw [recent, Nat.sub_eq_zero_of_le fits, List.drop_zero]

theorem recent_of_length_eq {capacity : Nat} {entries : List α}
    (exceeding : entries.length = capacity + 1) : recent capacity entries = entries.tail := by
  rw [recent, exceeding, Nat.add_sub_cancel_left, List.drop_one]

/-- Whether an entry that joins drives out another depends on what the ring is to hold so far. -/
theorem recent_concat (capacity : Nat) (entries : List α) (entry : α) :
    recent capacity (entries ++ [entry]) =
      recent capacity (recent capacity entries ++ [entry]) := by
  have joined : recent capacity entries ++ [entry] =
      (entries ++ [entry]).drop (entries.length - capacity) :=
    (List.drop_append_of_le_length (Nat.sub_le _ _)).symm
  rw [joined, recent, recent, List.drop_drop]
  congr 1
  simp only [List.length_drop, List.length_append, List.length_singleton]
  omega

@[simp] theorem push_capacity (ring : Ring α) (entry : α) :
    (ring.push entry).capacity = ring.capacity := by
  unfold push
  split <;> rfl

theorem push_of_set {entry : α} (inside : ring.nextSlot < ring.slots.size)
    (bounded : ring.slots.size ≤ ring.capacity) :
    ring.push entry =
      ⟨ring.capacity, ring.slots.setIfInBounds ring.nextSlot entry, some ring.nextSlot⟩ := by
  have positive : ring.capacity ≠ 0 := by omega
  simp only [push, if_neg positive, if_pos inside]

theorem push_of_grow {entry : α} (positive : 0 < ring.capacity)
    (behind : ring.slots.size ≤ ring.nextSlot) :
    ring.push entry = ⟨ring.capacity, ring.slots.push entry, some ring.nextSlot⟩ := by
  simp only [push, if_neg (Nat.ne_of_gt positive), if_neg (Nat.not_lt.mpr behind)]

theorem dump_eq_shown (ring : Ring α) (line : α → String) :
    ring.dump line = String.join
      (ring.slots.toList.zipIdx.map fun place => shown (ring.marker place.2) line place.1) :=
  rfl

theorem map_shown_of_marker {entries : List α} {start : Nat} {mark : String} {line : α → String}
    (alike : ∀ slot, start ≤ slot → slot < start + entries.length → ring.marker slot = mark) :
    (entries.zipIdx start).map (fun place => shown (ring.marker place.2) line place.1) =
      entries.map (shown mark line) := by
  have shows (place : α × Nat) (member : place ∈ entries.zipIdx start) :
      shown (ring.marker place.2) line place.1 = shown mark line place.1 := by
    obtain ⟨lower, upper, _⟩ := List.mem_zipIdx member
    rw [alike place.2 lower upper]
  calc (entries.zipIdx start).map (fun place => shown (ring.marker place.2) line place.1)
      = (entries.zipIdx start).map (shown mark line ∘ Prod.fst) := List.map_congr_left shows
    _ = ((entries.zipIdx start).map Prod.fst).map (shown mark line) := List.map_map.symm
    _ = entries.map (shown mark line) := by rw [List.zipIdx_map_fst]

/-- The slots from the first one to the newest entry hold what came last, and those behind it what came
before; there are none behind it as long as the ring grows. -/
structure Laid (ring : Ring α) (older newer : List α) (newest : α) : Prop where
  slots : ring.slots.toList = newer ++ newest :: older
  newest : ring.newest = some newer.length
  bounded : ring.slots.size ≤ ring.capacity
  full : older ≠ [] → ring.slots.size = ring.capacity

namespace Laid

variable {older newer : List α} {newest : α}

theorem size_eq (laid : ring.Laid older newer newest) :
    ring.slots.size = newer.length + 1 + older.length := by
  rw [← Array.length_toList, laid.slots, List.length_append, List.length_cons]
  omega

theorem nextSlot_eq (laid : ring.Laid older newer newest) :
    ring.nextSlot = (newer.length + 1) % ring.capacity := by
  rw [nextSlot, laid.newest]

/-- The oldest entry stands behind the newest, and is overwritten. -/
theorem push_within {oldest : α} (laid : ring.Laid (oldest :: older) newer newest) (entry : α) :
    (ring.push entry).Laid older (newer ++ [newest]) entry := by
  have size := laid.size_eq
  have capacity := laid.full (List.cons_ne_nil _ _)
  rw [List.length_cons] at size
  have slot : ring.nextSlot = newer.length + 1 := by
    rw [laid.nextSlot_eq, Nat.mod_eq_of_lt (by omega)]
  rw [push_of_set (by omega) laid.bounded]
  refine ⟨?_, ?_, ?_, fun _ => ?_⟩
  · simp [laid.slots, slot]
  · simp [slot]
  · simpa using laid.bounded
  · simpa using capacity

/-- There is room behind the newest entry. -/
theorem push_growing (laid : ring.Laid [] newer newest) (room : ring.slots.size < ring.capacity)
    (entry : α) : (ring.push entry).Laid [] (newer ++ [newest]) entry := by
  have size := laid.size_eq
  rw [List.length_nil] at size
  have slot : ring.nextSlot = newer.length + 1 := by
    rw [laid.nextSlot_eq, Nat.mod_eq_of_lt (by omega)]
  rw [push_of_grow (by omega) (by omega)]
  refine ⟨?_, ?_, ?_, fun nonempty => absurd rfl nonempty⟩
  · simp [laid.slots]
  · simp [slot]
  · rwa [Array.size_push]

/-- The newest entry stands in the last slot, so the next one goes into the first. -/
theorem push_around (laid : ring.Laid [] newer newest) (full : ring.slots.size = ring.capacity)
    (entry : α) : (ring.push entry).Laid (newer ++ [newest]).tail [] entry := by
  have size := laid.size_eq
  rw [List.length_nil] at size
  have slot : ring.nextSlot = 0 := by
    rw [laid.nextSlot_eq, ← full, size, Nat.add_zero, Nat.mod_self]
  rw [push_of_set (by omega) laid.bounded]
  refine ⟨?_, by simp [slot], by simpa using laid.bounded, fun _ => by simpa using full⟩
  cases newer <;> simp [laid.slots, slot]

/-- A push leaves the ring with the last entries of those it held and the one pushed. -/
theorem push (laid : ring.Laid older newer newest) (entry : α) :
    ∃ before after, (ring.push entry).Laid before after entry ∧
      before ++ after ++ [entry] =
        recent ring.capacity (older ++ newer ++ [newest] ++ [entry]) := by
  have size := laid.size_eq
  have bounded := laid.bounded
  cases older with
  | cons oldest rest =>
      have capacity := laid.full (List.cons_ne_nil _ _)
      rw [List.length_cons] at size
      refine ⟨rest, _, laid.push_within entry, ?_⟩
      rw [recent_of_length_eq (by simp; omega)]
      simp
  | nil =>
      rw [List.length_nil] at size
      by_cases room : ring.slots.size < ring.capacity
      · refine ⟨[], _, laid.push_growing room entry, ?_⟩
        rw [recent_of_length_le (by simp; omega), List.nil_append, List.nil_append]
      · refine ⟨_, [], laid.push_around (by omega) entry, ?_⟩
        rw [recent_of_length_eq (by simp; omega)]
        cases newer <;> simp

/-- Read from the slot behind the newest entry on, the ring gives its entries in order. -/
theorem rotate_oldestSlot (laid : ring.Laid older newer newest) :
    ring.slots.toList.rotate ring.oldestSlot = older ++ newer ++ [newest] := by
  have size := laid.size_eq
  have slots : ring.slots.toList = (newer ++ [newest]) ++ older := by simp [laid.slots]
  rw [slots, oldestSlot, Ring.size]
  cases older with
  | nil =>
      rw [List.length_nil, Nat.add_zero] at size
      have start : (if ring.slots.size < ring.capacity then 0 else ring.nextSlot) = 0 := by
        split
        · rfl
        · have full : ring.capacity = newer.length + 1 := by have := laid.bounded; omega
          rw [laid.nextSlot_eq, full, Nat.mod_self]
      simp [start]
  | cons oldest rest =>
      have full := laid.full (List.cons_ne_nil _ _)
      rw [List.length_cons] at size
      have start : (if ring.slots.size < ring.capacity then 0 else ring.nextSlot) =
          (newer ++ [newest]).length := by
        rw [if_neg (by omega), laid.nextSlot_eq, Nat.mod_eq_of_lt (by omega), List.length_append,
          List.length_singleton]
      rw [start, List.rotate_append_length_eq, List.append_assoc]

theorem last?_eq (laid : ring.Laid older newer newest) : ring.last? = some newest := by
  rw [last?, laid.newest, Option.bind_some, ← Array.getElem?_toList, laid.slots]
  simp

theorem dump_eq (laid : ring.Laid older newer newest) (line : α → String) :
    ring.dump line = String.join
      (newer.map (shown "   " line) ++ [shown "-->" line newest] ++
        older.map (shown "   " line)) := by
  have unmarked {slot : Nat} (other : slot ≠ newer.length) : ring.marker slot = "   " := by
    rw [marker, laid.newest, if_neg fun same => other (Option.some.inj same).symm]
  have marked : ring.marker newer.length = "-->" := by
    rw [marker, laid.newest, if_pos rfl]
  rw [dump_eq_shown, laid.slots, List.zipIdx_append, List.map_append, List.zipIdx_cons,
    List.map_cons, Nat.zero_add, marked, map_shown_of_marker fun slot _ below => unmarked (by omega),
    map_shown_of_marker fun slot above _ => unmarked (by omega), List.append_assoc]
  rfl

end Laid

theorem laid_first {capacity : Nat} (positive : 0 < capacity) (entry : α) :
    ((new capacity).push entry).Laid [] [] entry := by
  have grown : (new capacity).push entry = ⟨capacity, #[entry], some 0⟩ :=
    @push_of_grow α (new capacity) entry positive (Nat.le_refl 0)
  rw [grown]
  exact ⟨rfl, rfl, positive, fun nonempty => absurd rfl nonempty⟩

@[simp] theorem pushAll_capacity (ring : Ring α) (entries : List α) :
    (ring.pushAll entries).capacity = ring.capacity := by
  induction entries generalizing ring with
  | nil => rfl
  | cons entry later ih => exact (ih (ring.push entry)).trans (ring.push_capacity entry)

theorem pushAll_concat (ring : Ring α) (entries : List α) (entry : α) :
    ring.pushAll (entries ++ [entry]) = (ring.pushAll entries).push entry := by
  rw [pushAll, List.foldl_append]
  rfl

/-- After any pushes the entries are laid out in the ring, and they are the last ones. -/
theorem exists_laid {capacity : Nat} (positive : 0 < capacity) (entries : List α) (entry : α) :
    ∃ older newer, ((new capacity).pushAll (entries ++ [entry])).Laid older newer entry ∧
      older ++ newer ++ [entry] = recent capacity (entries ++ [entry]) := by
  -- The history grows at its end, so the induction is on the last push before this one.
  induction entries using List.reverseRecOn generalizing entry with
  | nil =>
      refine ⟨[], [], laid_first positive entry, ?_⟩
      rw [recent_of_length_le (Nat.succ_le_of_lt positive)]
      rfl
  | append_singleton earlier previous ih =>
      obtain ⟨older, newer, laid, held⟩ := ih previous
      obtain ⟨before, after, next, joined⟩ := laid.push entry
      rw [pushAll_capacity, held] at joined
      rw [← pushAll_concat] at next
      exact ⟨before, after, next, joined.trans (recent_concat capacity _ entry).symm⟩

/-- A ring holds the last entries that were pushed, as many as fit.  Read from the slot behind the newest
one on, or from the first slot as long as there is room, they come in the order of their pushes; the
last one is at hand, and a dump prints each of them once and marks the last one alone. -/
theorem ring_keeps_recent {capacity : Nat} (positive : 0 < capacity) (entries : List α)
    (line : α → String) :
    let ring := (new capacity).pushAll entries
    ring.size = min entries.length capacity ∧
      ring.slots.toList.rotate ring.oldestSlot = recent capacity entries ∧
      ring.last? = entries.getLast? ∧
      ∃ older newer, older ++ newer ++ entries.getLast?.toList = recent capacity entries ∧
        ring.slots.toList = newer ++ entries.getLast?.toList ++ older ∧
        ring.dump line = String.join (newer.map (shown "   " line) ++
          entries.getLast?.toList.map (shown "-->" line) ++ older.map (shown "   " line)) := by
  cases entries using List.reverseRecOn with
  | nil =>
      rw [recent_nil]
      exact ⟨(Nat.zero_min capacity).symm, List.rotate_nil _, rfl, [], [], rfl, rfl, rfl⟩
  | append_singleton earlier entry =>
      obtain ⟨older, newer, laid, held⟩ := exists_laid positive earlier entry
      have size : (recent capacity (earlier ++ [entry])).length =
          ((new capacity).pushAll (earlier ++ [entry])).size := by
        rw [← held, ← laid.rotate_oldestSlot, List.length_rotate, Array.length_toList, Ring.size]
      rw [List.getLast?_concat, Option.toList_some]
      exact ⟨size.symm.trans (recent_length _ _), laid.rotate_oldestSlot.trans held, laid.last?_eq,
        older, newer, held, by simp [laid.slots], laid.dump_eq line⟩

/-- Of five lines, the last two alike, a ring of three keeps three. -/
theorem three_of_five_kept :
    let ring := (new 3).pushAll ["a", "b", "c", "d", "d"]
    0 < 3 ∧ ring.slots.toList.rotate ring.oldestSlot = ["c", "d", "d"] ∧ ring.last? = some "d" ∧
      ring.dump id = "    d\n--> d\n    c\n" := by
  have positive : 0 < 3 := by decide
  obtain ⟨_, order, last, _⟩ := ring_keeps_recent positive ["a", "b", "c", "d", "d"] id
  exact ⟨positive, order, last, by decide +kernel⟩

end HartScope.Ring
