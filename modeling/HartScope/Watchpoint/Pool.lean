import HartScope.Expr.Evaluate

/-!
A fixed number of watchpoints.  The slots are threaded onto two lists by index, the active and the
free one, which share the `next` field.  Allocation moves the head of the free list to the head of
the active list; release takes a slot out of the active list and puts it at the head of the free
list.  A slot's position is the number by which the user knows the watchpoint.
-/

namespace HartScope

inductive WatchpointError where
  | exhausted
  | notFound (id : Nat)
deriving DecidableEq, Repr

def WatchpointError.message : WatchpointError → String
  | exhausted => "no free watchpoint slot"
  | notFound id => s!"no watchpoint number {id}"

structure Watchpoint where
  id : Nat
  next : Option Nat
  expr : String := ""
  /-- Value of the expression when it was last evaluated with success. -/
  value : UInt64 := 0
deriving DecidableEq, Repr

structure WatchReport where
  id : Nat
  expr : String
  old : UInt64
  new : UInt64
deriving DecidableEq, Repr

def WatchReport.text (report : WatchReport) : String :=
  s!"Watchpoint {report.id}: {report.expr}\n" ++
    s!"Old value: {report.old.toNat}\n" ++
    s!"New value: {report.new.toNat}\n"

structure WatchpointPool where
  slots : Array Watchpoint
  /-- Most recently created watchpoint. -/
  head : Option Nat
  /-- Slot that is allocated next. -/
  free : Option Nat
deriving DecidableEq, Repr

namespace WatchpointPool

def withCapacity (capacity : Nat) : WatchpointPool where
  slots := Array.ofFn fun id : Fin capacity =>
    { id := id.val, next := if id.val + 1 < capacity then some (id.val + 1) else none }
  head := none
  free := if 0 < capacity then some 0 else none

def defaultCapacity : Nat := 32

def new : WatchpointPool :=
  withCapacity defaultCapacity

/-- Slots met from `start` on, at most `steps` of them. -/
def walk (slots : Array Watchpoint) : (steps : Nat) → (start : Option Nat) → List Nat
  | 0, _ | _, none => []
  | steps + 1, some id =>
      match slots[id]? with
      | none => []
      | some slot => id :: walk slots steps slot.next

/-- Active slot numbers, most recently created first. -/
def active (pool : WatchpointPool) : List Nat :=
  walk pool.slots pool.slots.size pool.head

/-- Free slot numbers in the order in which they will be allocated. -/
def available (pool : WatchpointPool) : List Nat :=
  walk pool.slots pool.slots.size pool.free

def watchpoints (pool : WatchpointPool) : List Watchpoint :=
  pool.active.filterMap (pool.slots[·]?)

def isEmpty (pool : WatchpointPool) : Bool :=
  pool.head.isNone

def find? (pool : WatchpointPool) (id : Nat) : Option Watchpoint :=
  pool.watchpoints.find? (·.id == id)

/-- Takes a free slot, cleared, to the head of the active list. -/
def allocate (pool : WatchpointPool) : Except WatchpointError (Watchpoint × WatchpointPool) :=
  match pool.free with
  | none => .error .exhausted
  | some id =>
      match pool.slots[id]? with
      | none => .error .exhausted
      | some slot =>
          let fresh : Watchpoint := { id := id, next := pool.head }
          .ok (fresh,
            { slots := pool.slots.setIfInBounds id fresh, head := some id, free := slot.next })

def modifySlot (pool : WatchpointPool) (id : Nat) (change : Watchpoint → Watchpoint) :
    WatchpointPool :=
  { pool with slots := pool.slots.modify id change }

def create (pool : WatchpointPool) (expr : String) (value : UInt64) :
    Except WatchpointError (Nat × WatchpointPool) := do
  let (slot, pool) ← pool.allocate
  return (slot.id, pool.modifySlot slot.id fun fresh => { fresh with expr := expr, value := value })

def predecessor? (id : Nat) : List Nat → Option Nat
  | before :: next :: rest =>
      if next = id then some before else predecessor? id (next :: rest)
  | _ => none

/-- The pool with the link to slot `id` replaced by a link to what follows it. -/
def unlink (pool : WatchpointPool) (id : Nat) (next : Option Nat) : WatchpointPool :=
  if pool.head = some id then { pool with head := next }
  else
    match predecessor? id pool.active with
    | some before => pool.modifySlot before fun slot => { slot with next := next }
    | none => pool

/-- Frees an active slot and gives back its expression. -/
def release (pool : WatchpointPool) (id : Nat) :
    Except WatchpointError (String × WatchpointPool) :=
  match (pool.active.find? (· == id)).bind (pool.slots[·]?) with
  | none => .error (.notFound id)
  | some slot =>
      let unlinked := pool.unlink id slot.next
      let freed := unlinked.modifySlot id fun slot => { slot with next := pool.free, expr := "" }
      .ok (slot.expr, { freed with free := some id })

/-- Evaluates one watchpoint.  A failed evaluation changes nothing. -/
def pollSlot (scope : Scope) (pool : WatchpointPool) (id : Nat) :
    Option WatchReport × WatchpointPool :=
  match pool.slots[id]? with
  | none => (none, pool)
  | some slot =>
      match evaluate scope slot.expr with
      | .error _ => (none, pool)
      | .ok new =>
          if new = slot.value then (none, pool)
          else
            (some ⟨slot.id, slot.expr, slot.value, new⟩,
              pool.modifySlot id fun slot => { slot with value := new })

def pollSlots (scope : Scope) (pool : WatchpointPool) :
    List Nat → List WatchReport × WatchpointPool
  | [] => ([], pool)
  | id :: rest =>
      let (report, pool) := pollSlot scope pool id
      let (reports, pool) := pollSlots scope pool rest
      (report.toList ++ reports, pool)

/-- Evaluates every active watchpoint and reports those whose value changed. -/
def poll (scope : Scope) (pool : WatchpointPool) : List WatchReport × WatchpointPool :=
  pollSlots scope pool pool.active

end WatchpointPool

end HartScope
