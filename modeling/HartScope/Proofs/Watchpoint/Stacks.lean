import HartScope.Watchpoint.Pool

/-!
The watchpoint pool as two stacks.  Creating pops the number of a free slot and pushes a watchpoint,
releasing takes a watchpoint out and pushes its number.  At the bottom of the free stack are the
numbers that have never been used, in increasing order.
-/

namespace HartScope

/-- An active watchpoint without its link. -/
structure Watch where
  id : Nat
  expr : String
  value : UInt64
deriving DecidableEq, Repr

def Watchpoint.watch (slot : Watchpoint) : Watch :=
  ⟨slot.id, slot.expr, slot.value⟩

namespace Watch

/-- What a poll reports: a value other than the last one. -/
def report? (scope : Scope) (watch : Watch) : Option WatchReport :=
  match evaluate scope watch.expr with
  | .error _ => none
  | .ok new =>
      if new = watch.value then none else some ⟨watch.id, watch.expr, watch.value, new⟩

def polled (scope : Scope) (watch : Watch) : Watch :=
  match evaluate scope watch.expr with
  | .error _ => watch
  | .ok new => { watch with value := new }

end Watch

structure WatchStacks where
  capacity : Nat
  /-- Most recently created first. -/
  active : List Watch := []
  /-- Free numbers that have been used, most recently released first. -/
  released : List Nat := []
  /-- How many numbers have been used. -/
  used : Nat := 0

namespace WatchStacks

def ids (model : WatchStacks) : List Nat :=
  model.active.map Watch.id

/-- The free numbers in the order in which they will be allocated. -/
def free (model : WatchStacks) : List Nat :=
  model.released ++ List.range' model.used (model.capacity - model.used)

def pop? (model : WatchStacks) : Option (Nat × WatchStacks) :=
  match model.released with
  | id :: rest => some (id, { model with released := rest })
  | [] =>
      if model.used < model.capacity then
        some (model.used, { model with used := model.used + 1 })
      else none

def create (model : WatchStacks) (expr : String) (value : UInt64) :
    Except WatchpointError (Nat × WatchStacks) :=
  match model.pop? with
  | none => .error .exhausted
  | some (id, rest) => .ok (id, { rest with active := ⟨id, expr, value⟩ :: rest.active })

def find? (model : WatchStacks) (id : Nat) : Option Watch :=
  model.active.find? (·.id == id)

def release (model : WatchStacks) (id : Nat) : Except WatchpointError (String × WatchStacks) :=
  match model.find? id with
  | none => .error (.notFound id)
  | some watch =>
      .ok (watch.expr,
        { model with
          active := model.active.filter (·.id != id)
          released := id :: model.released })

def poll (scope : Scope) (model : WatchStacks) : List WatchReport × WatchStacks :=
  (model.active.filterMap (Watch.report? scope),
    { model with active := model.active.map (Watch.polled scope) })

theorem pop?_some {model after : WatchStacks} {id : Nat} (popped : model.pop? = some (id, after)) :
    model.free = id :: after.free ∧ after.active = model.active ∧
      after.capacity = model.capacity := by
  unfold pop? at popped
  split at popped
  · rename_i rest top
    cases popped
    simp [free, top]
  · rename_i bottom
    split at popped
    · rename_i unused
      cases popped
      have remaining : model.capacity - model.used = model.capacity - (model.used + 1) + 1 := by
        omega
      simp [free, bottom, remaining, List.range'_succ]
    · cases popped

theorem pop?_none {model : WatchStacks} (exhausted : model.pop? = none) : model.free = [] := by
  unfold pop? at exhausted
  split at exhausted
  · cases exhausted
  · rename_i bottom
    split at exhausted
    · cases exhausted
    · rename_i unused
      have remaining : model.capacity - model.used = 0 := by omega
      simp [free, bottom, remaining]

theorem find?_none_iff (model : WatchStacks) (id : Nat) :
    model.find? id = none ↔ id ∉ model.ids := by
  rw [find?, List.find?_eq_none, ids, List.mem_map, not_exists]
  constructor
  · intro none watch member
    exact none watch member.1 (by simp [member.2])
  · intro absent watch member same
    exact absent watch ⟨member, by simpa using same⟩

/-- Releasing a watchpoint whose number is not used twice removes only it. -/
theorem filter_released {before behind : List Watch} {watch : Watch}
    (alone : watch.id ∉ (before ++ behind).map Watch.id) :
    (before ++ watch :: behind).filter (·.id != watch.id) = before ++ behind := by
  have others : (before ++ behind).filter (·.id != watch.id) = before ++ behind := by
    apply List.filter_eq_self.mpr
    intro other member
    have apart : other.id ≠ watch.id := fun same =>
      alone (same ▸ List.mem_map_of_mem member)
    simpa using apart
  rw [List.filter_append] at others
  simp [List.filter_append, others]

end WatchStacks

end HartScope
