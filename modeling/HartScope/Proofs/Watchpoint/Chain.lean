import HartScope.Watchpoint.Pool

/-!
Lists threaded through the slots by index.  A chain is named by the slots that it visits, so one that
ends is acyclic exactly if it visits no slot twice, and writes to other slots leave it alone.
-/

namespace HartScope.WatchpointPool

/-- From the link `start` the chain visits `ids` in order and arrives at the link `stop`. -/
def Chain (slots : Array Watchpoint) : (start : Option Nat) → (ids : List Nat) →
    (stop : Option Nat) → Prop
  | start, [], stop => start = stop
  | start, id :: ids, stop =>
      start = some id ∧ ∃ slot, slots[id]? = some slot ∧ Chain slots slot.next ids stop

variable {slots after : Array Watchpoint} {start stop : Option Nat} {ids : List Nat}

theorem chain_append {first second : List Nat} :
    Chain slots start (first ++ second) stop ↔
      ∃ middle, Chain slots start first middle ∧ Chain slots middle second stop := by
  induction first generalizing start with
  | nil => simp [Chain]
  | cons id first ih =>
      simp only [List.cons_append, Chain, ih]
      constructor
      · rintro ⟨here, slot, found, middle, before, behind⟩
        exact ⟨middle, ⟨here, slot, found, before⟩, behind⟩
      · rintro ⟨middle, ⟨here, slot, found, before⟩, behind⟩
        exact ⟨here, slot, found, middle, before, behind⟩

/-- A chain depends on nothing but the links of the slots that it visits. -/
theorem Chain.congr (chain : Chain slots start ids stop)
    (links : ∀ id ∈ ids, after[id]?.map Watchpoint.next = slots[id]?.map Watchpoint.next) :
    Chain after start ids stop := by
  induction ids generalizing start with
  | nil => exact chain
  | cons id ids ih =>
      obtain ⟨here, slot, found, rest⟩ := chain
      have link := links id (List.mem_cons_self ..)
      rw [found, Option.map_some, Option.map_eq_some_iff] at link
      obtain ⟨other, present, same⟩ := link
      rw [← same] at rest
      exact ⟨here, other, present, ih rest fun id member => links id (List.mem_cons_of_mem _ member)⟩

/-- A chain that ends is walked to its end by every walk that is allowed enough steps. -/
theorem Chain.walk_eq (chain : Chain slots start ids none) {steps : Nat}
    (enough : ids.length ≤ steps) : walk slots steps start = ids := by
  induction ids generalizing start steps with
  | nil =>
      cases chain
      cases steps <;> rfl
  | cons id ids ih =>
      obtain ⟨rfl, slot, found, rest⟩ := chain
      cases steps with
      | zero => simp at enough
      | succ steps =>
          have fits : ids.length ≤ steps := by simpa using enough
          simp only [walk, found, ih rest fits]

theorem Chain.start_eq (chain : Chain slots start ids none) : start = ids.head? := by
  cases ids with
  | nil => exact chain
  | cons id ids => exact chain.1

/-- Each slot carries its own position as its number. -/
def Numbered (slots : Array Watchpoint) : Prop :=
  ∀ (id : Nat) (slot : Watchpoint), slots[id]? = some slot → slot.id = id

theorem Numbered.congr (numbered : Numbered slots)
    (same : ∀ id : Nat, after[id]?.map Watchpoint.id = slots[id]?.map Watchpoint.id) :
    Numbered after := by
  intro id slot found
  have number := same id
  rw [found] at number
  obtain ⟨old, present, equal⟩ := Option.map_eq_some_iff.mp number.symm
  rw [← equal]
  exact numbered id old present

section

variable {pool : WatchpointPool} {id other : Nat}

theorem modifySlot_size (pool : WatchpointPool) (id : Nat) (change : Watchpoint → Watchpoint) :
    (pool.modifySlot id change).slots.size = pool.slots.size := by
  simp [modifySlot]

theorem modifySlot_same {slot : Watchpoint} (found : pool.slots[id]? = some slot)
    (change : Watchpoint → Watchpoint) :
    (pool.modifySlot id change).slots[id]? = some (change slot) := by
  simp [modifySlot, Array.getElem?_modify, found]

theorem modifySlot_ne (apart : other ≠ id) (change : Watchpoint → Watchpoint) :
    (pool.modifySlot id change).slots[other]? = pool.slots[other]? := by
  rw [modifySlot, Array.getElem?_modify, if_neg apart.symm]

end

theorem predecessor?_append {before rest : List Nat} {last id : Nat}
    (absent : id ∉ before ++ [last]) :
    predecessor? id (before ++ last :: id :: rest) = some last := by
  induction before with
  | nil => simp [predecessor?]
  | cons first before ih =>
      rw [List.cons_append, List.mem_cons, not_or] at absent
      have later := ih absent.2
      cases before with
      | nil =>
          have apart : last ≠ id := fun same => absent.2 (by simp [same])
          simp [predecessor?, apart]
      | cons second before =>
          have apart : second ≠ id := fun same => absent.2 (by simp [same])
          simpa [predecessor?, apart] using later

end HartScope.WatchpointPool
