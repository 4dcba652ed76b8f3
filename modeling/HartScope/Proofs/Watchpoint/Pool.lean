import HartScope.Proofs.Watchpoint.Chain
import HartScope.Proofs.Watchpoint.Stacks
import Mathlib.Data.List.Basic
import Mathlib.Data.List.Induction

/-!
The pool refines the two stacks.  Both lists share the links of the slots, so what carries every
operation is that the two chains together visit each slot exactly once: a write to the link of one
slot concerns one chain, at one place.
-/

namespace HartScope.WatchpointPool

/-- The pool holds these stacks: each is threaded through the slots as a chain that ends, the two
chains share out the slots, and the active slots have the contents of the watchpoints. -/
structure Represents (pool : WatchpointPool) (model : WatchStacks) : Prop where
  size : pool.slots.size = model.capacity
  numbered : Numbered pool.slots
  active : Chain pool.slots pool.head model.ids none
  free : Chain pool.slots pool.free model.free none
  partition : (model.ids ++ model.free).Perm (List.range model.capacity)
  contents : ∀ watch ∈ model.active, pool.slots[watch.id]?.map Watchpoint.watch = some watch

variable {pool : WatchpointPool} {model : WatchStacks}

theorem represents_empty (capacity : Nat) :
    (withCapacity capacity).Represents { capacity := capacity } := by
  have slot (id : Nat) (bound : id < capacity) :
      (withCapacity capacity).slots[id]? =
        some { id := id, next := if id + 1 < capacity then some (id + 1) else none } := by
    simp [withCapacity, bound]
  -- From any number on, the links lead through all the numbers above it.
  have upward (count : Nat) : ∀ first, first + count = capacity →
      Chain (withCapacity capacity).slots (if first < capacity then some first else none)
        (List.range' first count) none := by
    induction count with
    | zero =>
        intro first whole
        have past : ¬ first < capacity := by omega
        simp [Chain, past]
    | succ count ih =>
        intro first whole
        have bound : first < capacity := by omega
        rw [if_pos bound, List.range'_succ]
        exact ⟨rfl, _, slot first bound, ih (first + 1) (by omega)⟩
  refine ⟨by simp [withCapacity], ?_, rfl, ?_, ?_, ?_⟩
  · intro id found present
    obtain ⟨bound, _⟩ := Array.getElem?_eq_some_iff.mp present
    rw [slot id (by simpa [withCapacity] using bound)] at present
    cases present
    rfl
  · have chain := upward capacity 0 (Nat.zero_add capacity)
    simpa [WatchStacks.free, withCapacity] using chain
  · simp [WatchStacks.ids, WatchStacks.free, List.range_eq_range']
  · intro watch member
    cases member

namespace Represents

variable (represents : pool.Represents model)
include represents

theorem nodup : (model.ids ++ model.free).Nodup :=
  represents.partition.nodup_iff.mpr List.nodup_range

theorem lengths : model.ids.length + model.free.length = model.capacity := by
  simpa using represents.partition.length_eq

theorem active_eq : pool.active = model.ids := by
  have lengths := represents.lengths
  have size := represents.size
  exact represents.active.walk_eq (by omega)

theorem available_eq : pool.available = model.free := by
  have lengths := represents.lengths
  have size := represents.size
  exact represents.free.walk_eq (by omega)

theorem watchpoints_eq : pool.watchpoints.map Watchpoint.watch = model.active := by
  have collect (watches : List Watch)
      (contents : ∀ watch ∈ watches, pool.slots[watch.id]?.map Watchpoint.watch = some watch) :
      ((watches.map Watch.id).filterMap (pool.slots[·]?)).map Watchpoint.watch = watches := by
    induction watches with
    | nil => rfl
    | cons watch watches ih =>
        obtain ⟨slot, found, same⟩ := Option.map_eq_some_iff.mp (contents watch (by simp))
        simp only [List.map_cons, List.filterMap_cons, found]
        rw [same, ih fun watch member => contents watch (by simp [member])]
  rw [watchpoints, represents.active_eq]
  exact collect model.active represents.contents

theorem find?_eq (id : Nat) : (pool.find? id).map Watchpoint.watch = model.find? id := by
  rw [WatchStacks.find?, ← represents.watchpoints_eq, List.find?_map]
  rfl

theorem allocate_none (exhausted : model.pop? = none) : pool.allocate = .error .exhausted := by
  have empty := represents.free.start_eq
  rw [WatchStacks.pop?_none exhausted] at empty
  simp [allocate, empty]

/-- Allocation moves the top of the free stack, cleared, to the top of the active one. -/
theorem allocate_some {id : Nat} {rest : WatchStacks} (popped : model.pop? = some (id, rest)) :
    ∃ after, pool.allocate = .ok ({ id := id, next := pool.head }, after) ∧
      after.Represents { rest with active := ⟨id, "", 0⟩ :: rest.active } := by
  obtain ⟨top, sameActive, sameCapacity⟩ := WatchStacks.pop?_some popped
  have sameIds : rest.ids = model.ids := by rw [WatchStacks.ids, sameActive, WatchStacks.ids]
  have chain := represents.free
  have distinct := represents.nodup
  have shared := represents.partition
  rw [top] at chain distinct shared
  obtain ⟨start, slot, found, remaining⟩ := chain
  -- The slot that moves lies on neither of the chains that remain, so its write breaks none.
  have absent := (List.nodup_cons.mp (List.perm_middle.nodup_iff.mp distinct)).1
  rw [List.mem_append, not_or] at absent
  let fresh : Watchpoint := { id := id, next := pool.head }
  have here : (pool.slots.setIfInBounds id fresh)[id]? = some fresh :=
    Array.getElem?_setIfInBounds_self_of_lt (Array.getElem?_eq_some_iff.mp found).1
  have elsewhere {other : Nat} (apart : other ≠ id) :
      (pool.slots.setIfInBounds id fresh)[other]? = pool.slots[other]? :=
    Array.getElem?_setIfInBounds_ne apart.symm
  have allocated : pool.allocate =
      .ok (fresh, ⟨pool.slots.setIfInBounds id fresh, some id, slot.next⟩) := by
    simp only [allocate, start, found, fresh]
  refine ⟨_, allocated, ?_, ?_, ?_, ?_, ?_, ?_⟩
  · simpa [sameCapacity] using represents.size
  · apply represents.numbered.congr
    intro other
    by_cases same : other = id
    · subst same
      simp [here, found, represents.numbered other slot found, fresh]
    · rw [elsewhere same]
  · refine ⟨rfl, fresh, here, ?_⟩
    change Chain _ pool.head rest.ids none
    rw [sameIds]
    apply represents.active.congr
    intro other member
    rw [elsewhere (ne_of_mem_of_not_mem member absent.1)]
  · apply remaining.congr
    intro other member
    rw [elsewhere (ne_of_mem_of_not_mem member absent.2)]
  · change (id :: rest.ids ++ rest.free).Perm (List.range rest.capacity)
    rw [sameIds, sameCapacity]
    exact List.perm_middle.symm.trans shared
  · intro watch member
    obtain rfl | older := List.mem_cons.mp member
    · rw [here]
      rfl
    · rw [sameActive] at older
      rw [elsewhere (ne_of_mem_of_not_mem (List.mem_map_of_mem older) absent.1)]
      exact represents.contents watch older

theorem slot {before behind : List Watch} {watch : Watch}
    (place : model.active = before ++ watch :: behind) :
    ∃ slot, pool.slots[watch.id]? = some slot ∧ slot.watch = watch :=
  Option.map_eq_some_iff.mp (represents.contents watch (by simp [place]))

/-- No other watchpoint and no free slot has the number of an active one. -/
theorem alone {before behind : List Watch} {watch : Watch}
    (place : model.active = before ++ watch :: behind) :
    watch.id ∉ (before ++ behind).map Watch.id ∧ watch.id ∉ model.free := by
  have distinct := represents.nodup
  rw [WatchStacks.ids, place, List.map_append, List.map_cons, List.append_assoc,
    List.cons_append] at distinct
  have absent := (List.nodup_cons.mp (List.perm_middle.nodup_iff.mp distinct)).1
  rw [← List.append_assoc, ← List.map_append, List.mem_append, not_or] at absent
  exact absent

/-- Writing to the contents of one active slot, and not to its link, changes that watchpoint. -/
theorem modify {before behind : List Watch} {watch : Watch}
    (place : model.active = before ++ watch :: behind) (updated : Watch)
    (sameId : updated.id = watch.id) (change : Watchpoint → Watchpoint)
    (links : ∀ slot, (change slot).next = slot.next)
    (changed : ∀ slot : Watchpoint, slot.watch = watch → (change slot).watch = updated) :
    (pool.modifySlot watch.id change).Represents
      { model with active := before ++ updated :: behind } := by
  have sameIds : ({ model with active := before ++ updated :: behind } : WatchStacks).ids =
      model.ids := by
    simp [WatchStacks.ids, place, sameId]
  obtain ⟨slot, found, same⟩ := represents.slot place
  have here := modifySlot_same found change
  have kept (id : Nat) : (pool.modifySlot watch.id change).slots[id]?.map Watchpoint.next =
      pool.slots[id]?.map Watchpoint.next := by
    by_cases target : id = watch.id
    · subst target
      simp [here, found, links]
    · rw [modifySlot_ne target]
  refine ⟨?_, ?_, ?_, ?_, ?_, ?_⟩
  · exact (modifySlot_size ..).trans represents.size
  · apply represents.numbered.congr
    intro id
    by_cases target : id = watch.id
    · subst target
      have renamed : (change slot).id = updated.id := congrArg Watch.id (changed slot same)
      simp [here, found, renamed, sameId, represents.numbered _ slot found]
    · rw [modifySlot_ne target]
  · rw [sameIds]
    exact represents.active.congr fun id _ => kept id
  · exact represents.free.congr fun id _ => kept id
  · rw [sameIds]
    exact represents.partition
  · intro other member
    obtain rfl | older := List.mem_cons.mp (List.perm_middle.mem_iff.mp member)
    · rw [sameId, here]
      exact congrArg some (changed slot same)
    · have apart := ne_of_mem_of_not_mem (List.mem_map_of_mem older) (represents.alone place).1
      rw [modifySlot_ne apart]
      apply represents.contents
      rw [place]
      exact List.perm_middle.mem_iff.mpr (List.mem_cons_of_mem _ older)

/-- Creating is allocating and filling in the slot. -/
theorem create_some {id : Nat} {rest : WatchStacks} (popped : model.pop? = some (id, rest))
    (expr : String) (value : UInt64) :
    ∃ after, pool.create expr value = .ok (id, after) ∧
      after.Represents { rest with active := ⟨id, expr, value⟩ :: rest.active } := by
  obtain ⟨fresh, allocated, cleared⟩ := represents.allocate_some popped
  let fill (slot : Watchpoint) : Watchpoint := { slot with expr := expr, value := value }
  have filled (slot : Watchpoint) (same : slot.watch = ⟨id, "", 0⟩) :
      (fill slot).watch = ⟨id, expr, value⟩ := by
    have sameId : slot.id = id := congrArg Watch.id same
    simp [fill, Watchpoint.watch, sameId]
  have top : ({ rest with active := ⟨id, "", 0⟩ :: rest.active } : WatchStacks).active =
      [] ++ ⟨id, "", 0⟩ :: rest.active := rfl
  refine ⟨fresh.modifySlot id fill, ?_, cleared.modify top ⟨id, expr, value⟩ rfl fill (fun _ => rfl) filled⟩
  rw [create, allocated]
  rfl

theorem pollSlot_step (scope : Scope) {before behind : List Watch} {watch : Watch}
    (place : model.active = before ++ watch :: behind) :
    (pollSlot scope pool watch.id).1 = watch.report? scope ∧
      (pollSlot scope pool watch.id).2.Represents
        { model with active := before ++ watch.polled scope :: behind } := by
  obtain ⟨slot, found, same⟩ := represents.slot place
  have id : slot.id = watch.id := congrArg Watch.id same
  have expr : slot.expr = watch.expr := congrArg Watch.expr same
  have value : slot.value = watch.value := congrArg Watch.value same
  have unchanged : pool.Represents { model with active := before ++ watch :: behind } := by
    rwa [← place]
  cases outcome : evaluate scope watch.expr with
  | error reason =>
      simp only [pollSlot, Watch.report?, Watch.polled, found, expr, outcome]
      exact ⟨trivial, unchanged⟩
  | ok new =>
      simp only [pollSlot, Watch.report?, Watch.polled, found, id, expr, value, outcome]
      split
      · rename_i steady
        rw [steady]
        exact ⟨rfl, unchanged⟩
      · let renew (slot : Watchpoint) : Watchpoint := { slot with value := new }
        have renewed (other : Watchpoint) (equal : other.watch = watch) :
            (renew other).watch = { watch with value := new } := by
          rw [← equal]
          rfl
        exact ⟨rfl, represents.modify place { watch with value := new } rfl renew (fun _ => rfl)
          renewed⟩

theorem release_none {id : Nat} (absent : model.find? id = none) :
    pool.release id = .error (.notFound id) := by
  have missing := (model.find?_none_iff id).mp absent
  have unmet : model.ids.find? (· == id) = none := by
    apply List.find?_eq_none.mpr
    intro other member
    simpa using ne_of_mem_of_not_mem member missing
  simp [release, represents.active_eq, unmet]

end Represents

/-- Polling goes down the active list; what has been polled stays behind. -/
theorem pollSlots_rest (represents : pool.Represents model) (scope : Scope)
    (before rest : List Watch) (place : model.active = before ++ rest) :
    (pollSlots scope pool (rest.map Watch.id)).1 = rest.filterMap (Watch.report? scope) ∧
      (pollSlots scope pool (rest.map Watch.id)).2.Represents
        { model with active := before ++ rest.map (Watch.polled scope) } := by
  induction rest generalizing pool model before with
  | nil =>
      refine ⟨rfl, ?_⟩
      have unchanged : model = { model with active := before ++ [] } := by rw [← place]
      exact unchanged ▸ represents
  | cons watch rest ih =>
      obtain ⟨reported, stepped⟩ := represents.pollSlot_step scope place
      obtain ⟨others, polled⟩ := ih stepped (before ++ [watch.polled scope]) (by simp)
      simp only [List.map_cons, pollSlots]
      constructor
      · rw [reported, others, List.filterMap_cons]
        cases watch.report? scope <;> rfl
      · simpa using polled

theorem Represents.poll_eq (represents : pool.Represents model) (scope : Scope) :
    (pool.poll scope).1 = (model.poll scope).1 ∧
      (pool.poll scope).2.Represents (model.poll scope).2 := by
  rw [poll, represents.active_eq]
  exact pollSlots_rest represents scope [] model.active rfl

/-- The link to an active slot is replaced by its own: the chain loses that slot, and otherwise only
the link of a slot before it is written. -/
theorem unlink_spec {before behind : List Nat} {id : Nat} {slot : Watchpoint}
    (chain : Chain pool.slots pool.head (before ++ id :: behind) none)
    (distinct : (before ++ id :: behind).Nodup) (walked : pool.active = before ++ id :: behind)
    (found : pool.slots[id]? = some slot) :
    Chain (pool.unlink id slot.next).slots (pool.unlink id slot.next).head (before ++ behind) none ∧
      (pool.unlink id slot.next).slots.size = pool.slots.size ∧
      (∀ other : Nat, (pool.unlink id slot.next).slots[other]?.map Watchpoint.watch =
        pool.slots[other]?.map Watchpoint.watch) ∧
      ∀ other ∉ before, (pool.unlink id slot.next).slots[other]? = pool.slots[other]? := by
  obtain ⟨middle, upTo, rfl, entry, present, rest⟩ := chain_append.mp chain
  rw [found] at present
  cases present
  cases before using List.reverseRecOn with
  | nil =>
      -- The released watchpoint is the newest one.
      have top : pool.head = some id := upTo
      simp only [unlink, top, if_true, List.nil_append]
      exact ⟨rest, trivial, fun _ => trivial, fun _ _ => trivial⟩
  | append_singleton init last =>
      let relink (other : Watchpoint) : Watchpoint := { other with next := slot.next }
      obtain ⟨_, reach, rfl, previous, precedes, link⟩ := chain_append.mp upTo
      have absent : id ∉ init ++ [last] := fun member =>
        (List.nodup_append.mp distinct).2.2 id member id (by simp) rfl
      have alone : last ∉ init ∧ last ∉ id :: behind := by
        rw [List.append_assoc, List.singleton_append] at distinct
        have once := (List.nodup_cons.mp (List.perm_middle.nodup_iff.mp distinct)).1
        rwa [List.mem_append, not_or] at once
      have notTop : pool.head ≠ some id := by
        intro top
        rw [chain.start_eq, List.head?_append_of_ne_nil _ (by simp)] at top
        exact absent (List.mem_of_mem_head? top)
      have before : predecessor? id pool.active = some last := by
        rw [walked, List.append_assoc]
        exact predecessor?_append absent
      have unlinked : pool.unlink id slot.next = pool.modifySlot last relink := by
        simp only [unlink, notTop, before, if_false, relink]
      have here := modifySlot_same precedes relink
      rw [unlinked]
      refine ⟨?_, modifySlot_size .., ?_, ?_⟩
      · apply chain_append.mpr
        refine ⟨slot.next, chain_append.mpr ⟨some last, ?_, rfl, _, here, rfl⟩, ?_⟩
        · apply reach.congr
          intro other member
          rw [modifySlot_ne (ne_of_mem_of_not_mem member alone.1)]
        · apply rest.congr
          intro other member
          rw [modifySlot_ne (ne_of_mem_of_not_mem (List.mem_cons_of_mem _ member) alone.2)]
      · intro other
        by_cases target : other = last
        · subst target
          simp [here, precedes, relink, Watchpoint.watch]
        · rw [modifySlot_ne target]
      · intro other outside
        have apart : other ≠ last := fun same => outside (by simp [same])
        rw [modifySlot_ne apart]

/-- A released slot, at the top of the free list. -/
def freed (pool : WatchpointPool) (slot : Watchpoint) : Watchpoint :=
  { slot with next := pool.free, expr := "" }

theorem release_eq {watch : Watch} {slot : Watchpoint} (active : watch.id ∈ pool.active)
    (found : pool.slots[watch.id]? = some slot) (same : slot.watch = watch) :
    pool.release watch.id = .ok (watch.expr,
      { (pool.unlink watch.id slot.next).modifySlot watch.id pool.freed with
        free := some watch.id }) := by
  have met : pool.active.find? (· == watch.id) = some watch.id := by
    cases search : pool.active.find? (· == watch.id) with
    | none =>
        have missed := List.find?_eq_none.mp search watch.id active
        simp at missed
    | some id =>
        have hit := List.find?_some search
        simpa using hit
  have expr : slot.expr = watch.expr := congrArg Watch.expr same
  simp only [release, met, Option.bind_some, found, expr]
  rfl

/-- Releasing takes the watchpoint out of the active stack and puts its number on the free one. -/
theorem Represents.release_some (represents : pool.Represents model) {id : Nat} {watch : Watch}
    (found : model.find? id = some watch) :
    ∃ after, pool.release id = .ok (watch.expr, after) ∧
      after.Represents
        { model with
          active := model.active.filter (·.id != id)
          released := id :: model.released } := by
  obtain ⟨hit, before, behind, place, _⟩ := List.find?_eq_some_iff_append.mp found
  have sameId : watch.id = id := by simpa using hit
  subst sameId
  obtain ⟨slot, present, same⟩ := represents.slot place
  obtain ⟨absent, notFree⟩ := represents.alone place
  have ids : model.ids = before.map Watch.id ++ watch.id :: behind.map Watch.id := by
    simp [WatchStacks.ids, place]
  have walked := represents.active_eq.trans ids
  have chain := represents.active
  have distinct := represents.nodup
  have shared := represents.partition
  rw [ids] at chain distinct shared
  obtain ⟨shortened, size, contents, links⟩ :=
    unlink_spec chain (List.nodup_append.mp distinct).1 walked present
  have notBefore : watch.id ∉ before.map Watch.id := by
    rw [List.map_append, List.mem_append, not_or] at absent
    exact absent.1
  have released := release_eq (by simp [walked]) present same
  have here := modifySlot_same ((links watch.id notBefore).trans present) pool.freed
  refine ⟨_, released, ?_⟩
  rw [place, WatchStacks.filter_released absent]
  refine ⟨?_, ?_, ?_, ?_, ?_, ?_⟩
  · exact (modifySlot_size ..).trans (size.trans represents.size)
  · apply represents.numbered.congr
    intro other
    by_cases target : other = watch.id
    · subst target
      simp [here, present, freed]
    · have kept := congrArg (Option.map Watch.id) (contents other)
      rw [Option.map_map, Option.map_map] at kept
      rw [modifySlot_ne target]
      exact kept
  · change Chain _ _ ((before ++ behind).map Watch.id) none
    rw [List.map_append]
    apply shortened.congr
    intro other member
    rw [← List.map_append] at member
    rw [modifySlot_ne (ne_of_mem_of_not_mem member absent)]
  · refine ⟨rfl, _, here, ?_⟩
    apply represents.free.congr
    intro other member
    have outside : other ∉ before.map Watch.id := fun active =>
      (List.nodup_append.mp distinct).2.2 other (by simp [active]) other member rfl
    rw [modifySlot_ne (ne_of_mem_of_not_mem member notFree), links other outside]
  · simp only [WatchStacks.ids, WatchStacks.free, List.map_append, List.cons_append]
    refine List.Perm.trans ?_ shared
    exact List.perm_middle.trans (List.perm_middle.append_right model.free).symm
  · intro other member
    have apart := ne_of_mem_of_not_mem (List.mem_map_of_mem member) absent
    rw [modifySlot_ne apart, contents other.id]
    apply represents.contents
    rw [place]
    exact List.perm_middle.mem_iff.mpr (List.mem_cons_of_mem _ member)

end HartScope.WatchpointPool
